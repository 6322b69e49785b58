import ClassLang.Proofs.Doubles
import ClassLang.Proofs.Printing.Limit
import ClassLang.Syntax.Equality

/-! # Printing simplified programs

Simplification writes the numbers it computes as literals. A number that the scanner finds has no sign,
so a computed number can be read again only if it is not negative. The source text of a simplified
program is read as that program just when no literal in it starts with a minus sign and there is room
for its levels. -/

namespace ClassLang

open Reading Grammar List Stmt ClassLang.Expr TypeRef

variable {program : Program}

/-! ## Names and numbers do not depend on positions -/

mutual

@[simp] theorem TypeRef.spellings_erase (type : TypeRef) : type.erase.spellings = type.spellings := by
  obtain ⟨name, arguments, position⟩ := type
  rw [erase, spellings, spellings, listSpellings_eraseList arguments]

@[simp] theorem TypeRef.listSpellings_eraseList (types : List TypeRef) :
    listSpellings (eraseList types) = listSpellings types := by
  cases types with
  | nil => rfl
  | cons type others =>
    rw [eraseList, listSpellings, listSpellings, type.spellings_erase,
      listSpellings_eraseList others]

end

mutual

@[simp] theorem Expr.spellings_erase (expr : Expr) : expr.erase.spellings = expr.spellings := by
  cases expr with
  | ident name arguments =>
    rw [erase, spellings, spellings, TypeRef.listSpellings_eraseList]
  | binary op left right =>
    rw [erase, spellings, spellings, left.spellings_erase, right.spellings_erase]
  | member target name =>
    rw [erase, spellings, spellings, target.spellings_erase]
  | call callee arguments =>
    rw [erase, spellings, spellings, callee.spellings_erase, listSpellings_eraseList arguments]
  | _ => rfl

@[simp] theorem Expr.listSpellings_eraseList (exprs : List Expr) :
    listSpellings (eraseList exprs) = listSpellings exprs := by
  cases exprs with
  | nil => rfl
  | cons expr others =>
    rw [eraseList, listSpellings, listSpellings, expr.spellings_erase,
      listSpellings_eraseList others]

end

mutual

@[simp] theorem Stmt.spellings_erase (stmt : Stmt) : stmt.erase.spellings = stmt.spellings := by
  cases stmt with
  | branch test body alternative =>
    cases alternative with
    | none =>
      rw [erase, spellings, spellings, test.spellings_erase, blockSpellings_eraseBlock body]
    | some alternative =>
      rw [erase, spellings, spellings, test.spellings_erase,
        blockSpellings_eraseBlock body, blockSpellings_eraseBlock alternative]
  | loop test body =>
    rw [erase, spellings, spellings, test.spellings_erase, blockSpellings_eraseBlock body]
  | leave => rfl
  | declare | assign | ret | eval => simp only [erase, spellings, Expr.spellings_erase]

@[simp] theorem Stmt.blockSpellings_eraseBlock (block : List Stmt) :
    blockSpellings (eraseBlock block) = blockSpellings block := by
  cases block with
  | nil => rfl
  | cons stmt others =>
    rw [eraseBlock, blockSpellings, blockSpellings, stmt.spellings_erase,
      blockSpellings_eraseBlock others]

end

@[simp] theorem Param.spellings_erase (param : Param) :
    param.erase.spellings = param.spellings := by
  rw [Param.erase, Param.spellings, Param.spellings, TypeRef.spellings_erase]

@[simp] theorem Method.spellings_erase (method : Method) :
    method.erase.spellings = method.spellings := by
  have result : (method.result.map TypeRef.erase).toList.flatMap TypeRef.spellings =
      method.result.toList.flatMap TypeRef.spellings := by
    cases method.result <;> simp
  simp [Method.spellings, Method.erase, flatMap_map, result]

@[simp] theorem Member.spellings_erase (member : Member) :
    member.erase.spellings = member.spellings := by
  cases member with
  | field decl => simp [Member.erase, Field.erase, Member.spellings]
  | method decl => exact decl.spellings_erase

@[simp] theorem ClassDecl.spellings_erase (decl : ClassDecl) :
    decl.erase.spellings = decl.spellings := by
  simp [ClassDecl.erase, ClassDecl.spellings, flatMap_map]

@[simp] theorem Program.spellings_erase (program : Program) :
    program.erase.spellings = program.spellings := by
  simp [Program.erase, Program.spellings, flatMap_map]

/-! ## Numbers with a sign -/

/-- Whether a name or a number starts with a minus sign. -/
def Word.isSigned (spelling : Kind × String) : Bool := spelling.2.toList.head? = some '-'

/-- Whether every name and number is one that the scanner finds, or starts with a minus sign. -/
def Word.AllWritten (spellings : List (Kind × String)) : Prop :=
  ∀ spelling ∈ spellings, Word.IsFound spelling ∨ Word.isSigned spelling = true

/-- A number does not start with a minus sign. -/
theorem Lexeme.IsNumber.head?_ne {kind : Kind} {text : String} (isNumber : Lexeme.IsNumber kind text) :
    text.toList.head? ≠ some '-' := by
  obtain ⟨whole, point, exponent, spelling, ⟨nonempty, all⟩, -⟩ := isNumber
  obtain ⟨c, others, rfl⟩ := exists_cons_of_ne_nil nonempty
  rw [spelling]
  intro minus
  obtain rfl : c = '-' := Option.some.inj minus
  exact absurd (all '-' mem_cons_self) (by decide)

/-- What the scanner finds does not start with a minus sign. -/
theorem Word.IsFound.isSigned_eq {spelling : Kind × String} (found : Word.IsFound spelling) :
    Word.isSigned spelling = false := by
  refine decide_eq_false fun minus => ?_
  unfold Word.IsFound at found
  split at found
  · obtain ⟨⟨c, rest, spelled, start, -⟩, -⟩ := found
    rw [spelled] at minus
    obtain rfl : c = '-' := Option.some.inj minus
    exact absurd start (by decide)
  · exact found.head?_ne minus
  · exact found.head?_ne minus
  · exact found

/-! ## Numbers that are computed -/

namespace Constant

/-- A finite double is neither undefined nor infinite. -/
theorem of_isFinite {value : Float} (finite : value.isFinite = true) :
    value.isNaN = false ∧ value.toBits.toNat % Double.signBit ≠ Double.infinityBits := by
  unfold Float.isFinite Float.Model.isFinite at finite
  constructor
  · unfold Float.isNaN Float.Model.isNaN
    cases found : value.toModel.unpack with
    | notANumber =>
      rw [found] at finite
      cases finite
    | _ => rfl
  · intro infinite
    -- a double whose exponent has all bits set unpacks to an infinite or undefined one
    have exponent := unpackExponent_of_infinite infinite.ge
    unfold Float.toBits at exponent
    unfold Float.Model.unpack Float.Model.UnpackedFloat.unpack at finite
    dsimp only at finite
    rw [if_pos exponent] at finite
    split at finite <;> cases finite

/-- The text of a finite double is a real number, with or without a minus sign. -/
theorem realText_of_isFinite {value : Float} (finite : value.isFinite = true) :
    Lexeme.IsNumber .real (realText value) ∨ (realText value).toList.head? = some '-' := by
  obtain ⟨defined, bounded⟩ := of_isFinite finite
  have below := Nat.mod_lt value.toBits.toNat (by decide : 0 < Double.signBit)
  rw [realText_of_defined defined]
  split
  · right
    rw [String.toList_append]
    rfl
  · left
    rw [String.empty_append]
    exact isNumber_magnitudeText below bounded

/-- The text of an integer is an integer number, with or without a minus sign. -/
theorem toString_int_cases (value : Int) :
    Lexeme.IsNumber .integer (toString value) ∨ (toString value).toList.head? = some '-' := by
  cases value with
  | ofNat magnitude =>
    have digits : Lexeme.IsDigits (Nat.toDigits 10 magnitude) :=
      ⟨Nat.toDigits_ne_nil, Decimal.isDigit_toDigits magnitude⟩
    refine .inl ⟨_, [], [], ?_, digits, .inl rfl, .inl rfl, rfl⟩
    rw [Decimal.toList_toString_ofNat, append_nil, append_nil]
  | negSucc magnitude =>
    right
    rw [Decimal.toList_toString_negSucc]
    rfl

/-- Whether a constant is not an infinite or undefined double. -/
def IsFinite : Constant → Prop
  | real value => value.isFinite = true
  | _ => True

/-- What is computed is finite. -/
theorem isFinite_binary? {op : BinaryOp} {left right result : Constant}
    (computed : binary? op left right = some result) : result.IsFinite := by
  -- if one operand is a double, both are computed with as doubles
  have ofReals {first second : Float}
      (computed : (if op.isArithmetic then (realArithmetic? op first second).map real
        else some (bool (realCompare op first second))) = some result) : result.IsFinite := by
    split at computed
    · obtain ⟨value, found, rfl⟩ := Option.map_eq_some_iff.mp computed
      have kept {outcome : Float}
          (found : (if outcome.isFinite = true then some outcome else none) = some value) :
          value.isFinite = true := by
        split at found
        · next finite => exact Option.some.inj found ▸ finite
        · cases found
      unfold realArithmetic? at found
      dsimp only at found
      split at found
      · exact kept found
      · exact kept found
      · exact kept found
      · exact kept found
      · cases found
    · obtain rfl := Option.some.inj computed
      trivial
  cases left with
  | int first =>
    cases right with
    | int second =>
      rw [binary?] at computed
      split at computed
      · obtain ⟨value, -, rfl⟩ := Option.map_eq_some_iff.mp computed
        trivial
      · obtain rfl := Option.some.inj computed
        trivial
    | real second => exact ofReals computed
    | bool second => cases computed
  | real first =>
    cases right with
    | int second => exact ofReals computed
    | real second => exact ofReals computed
    | bool second => cases computed
  | bool first =>
    cases right with
    | int second => cases computed
    | real second => cases computed
    | bool second => cases op <;> cases computed <;> trivial

/-- The literal of a finite constant is one that the scanner finds, or it has a minus sign. -/
theorem allWritten_toExpr {constant : Constant} (finite : constant.IsFinite) (position : Position) :
    Word.AllWritten (constant.toExpr position).spellings := by
  cases constant with
  | int value =>
    exact forall_mem_singleton.mpr ((toString_int_cases value).imp_right decide_eq_true)
  | real value =>
    exact forall_mem_singleton.mpr ((realText_of_isFinite finite).imp_right decide_eq_true)
  | bool value => nofun

end Constant

/-! ## Simplification

What holds of all names and numbers before it, and of all numbers that can be computed, holds of all of
them afterwards. -/

/-- Whether a name or a number is the literal of a computed constant. -/
def Word.IsComputed (spelling : Kind × String) : Prop :=
  ∃ op left right result position, Constant.binary? op left right = some result ∧
    spelling ∈ (Constant.toExpr position result).spellings

/-- Computed numbers are ones that the scanner finds, or they have a minus sign. -/
theorem Word.IsComputed.isWritten {spelling : Kind × String} (computed : Word.IsComputed spelling) :
    Word.IsFound spelling ∨ Word.isSigned spelling = true := by
  obtain ⟨op, left, right, result, position, computed, inside⟩ := computed
  exact Constant.allWritten_toExpr (Constant.isFinite_binary? computed) position spelling inside

/-- Whether a property holds of all numbers that can be computed. -/
def Word.OfComputed (holds : Kind × String → Prop) : Prop :=
  ∀ spelling, Word.IsComputed spelling → holds spelling

section Simplification

variable {holds : Kind × String → Prop}

/-- Rewriting each of several things keeps a property of all of them, if it does so of each. -/
theorem Word.forall_flatMap_map {α : Type} {things : List α} {rewrite : α → α}
    {spellings : α → List (Kind × String)} (all : ∀ spelling ∈ things.flatMap spellings, holds spelling)
    (each : ∀ {thing}, (∀ spelling ∈ spellings thing, holds spelling) →
      ∀ spelling ∈ spellings (rewrite thing), holds spelling) :
    ∀ spelling ∈ (things.map rewrite).flatMap spellings, holds spelling := by
  rw [flatMap_map]
  intro spelling found
  obtain ⟨thing, member, inside⟩ := mem_flatMap.mp found
  exact each (fun spelling inside => all spelling (mem_flatMap.mpr ⟨thing, member, inside⟩))
    spelling inside

namespace Expr

/-- An operation on operands, whether or not it is computed. -/
theorem forall_spellings_combine (computed : Word.OfComputed holds) (op : BinaryOp)
    {left right : Expr} (position : Position) (first : ∀ spelling ∈ left.spellings, holds spelling)
    (second : ∀ spelling ∈ right.spellings, holds spelling) :
    ∀ spelling ∈ (combine op left right position).spellings, holds spelling := by
  rcases combine_cases op left right position with same | ⟨_, _, result, -, -, found, same⟩
  · rw [same]
    exact forall_mem_append.mpr ⟨first, second⟩
  · rw [same]
    exact fun spelling inside => computed _ ⟨op, _, _, result, position, found, inside⟩

mutual

/-- The constant operations of an expression are computed. -/
theorem forall_spellings_fold (computed : Word.OfComputed holds) {expr : Expr}
    (all : ∀ spelling ∈ expr.spellings, holds spelling) :
    ∀ spelling ∈ expr.fold.spellings, holds spelling := by
  cases expr with
  | binary op left right position =>
    obtain ⟨first, second⟩ := forall_mem_append.mp all
    exact forall_spellings_combine computed op position
      (forall_spellings_fold computed first) (forall_spellings_fold computed second)
  | member target name =>
    obtain ⟨first, second⟩ := forall_mem_append.mp all
    exact forall_mem_append.mpr ⟨forall_spellings_fold computed first, second⟩
  | call callee arguments =>
    obtain ⟨first, second⟩ := forall_mem_append.mp all
    exact forall_mem_append.mpr
      ⟨forall_spellings_fold computed first, forall_spellings_foldList computed second⟩
  | _ => exact all

theorem forall_spellings_foldList (computed : Word.OfComputed holds) {exprs : List Expr}
    (all : ∀ spelling ∈ listSpellings exprs, holds spelling) :
    ∀ spelling ∈ listSpellings (foldList exprs), holds spelling := by
  cases exprs with
  | nil => exact all
  | cons expr others =>
    obtain ⟨first, second⟩ := forall_mem_append.mp all
    exact forall_mem_append.mpr
      ⟨forall_spellings_fold computed first, forall_spellings_foldList computed second⟩

end

end Expr

namespace Stmt

/-- The names and numbers in blocks in sequence. -/
theorem blockSpellings_append (first second : List Stmt) :
    blockSpellings (first ++ second) = blockSpellings first ++ blockSpellings second := by
  induction first with
  | nil => rfl
  | cons stmt others ih =>
    rw [cons_append, blockSpellings, blockSpellings, ih, append_assoc]

theorem blockSpellings_singleton (stmt : Stmt) : blockSpellings [stmt] = stmt.spellings :=
  append_nil _

mutual

/-- A statement is simplified. -/
theorem forall_spellings_simplify (computed : Word.OfComputed holds) {stmt : Stmt}
    (all : ∀ spelling ∈ stmt.spellings, holds spelling) :
    ∀ spelling ∈ blockSpellings stmt.simplify, holds spelling := by
  cases stmt with
  | declare name init =>
    obtain ⟨first, second⟩ := forall_mem_cons.mp all
    rw [simplify, blockSpellings_singleton]
    exact forall_mem_cons.mpr ⟨first, forall_spellings_fold computed second⟩
  | assign target value =>
    obtain ⟨first, second⟩ := forall_mem_append.mp all
    rw [simplify, blockSpellings_singleton]
    exact forall_mem_append.mpr ⟨first, forall_spellings_fold computed second⟩
  | branch test body alternative =>
    cases alternative with
    | none =>
      rw [spellings] at all
      obtain ⟨first, second⟩ := forall_mem_append.mp all
      rw [simplify]
      split
      · exact forall_spellings_simplifyBlock computed second
      · nofun
      · rw [blockSpellings_singleton, spellings]
        exact forall_mem_append.mpr ⟨forall_spellings_fold computed first,
          forall_spellings_simplifyBlock computed second⟩
    | some alternative =>
      rw [spellings] at all
      obtain ⟨first, blocks⟩ := forall_mem_append.mp all
      obtain ⟨second, third⟩ := forall_mem_append.mp blocks
      -- a test with a known value leaves one of the blocks in place of the branch
      rw [simplify]
      split
      · exact forall_spellings_simplifyBlock computed second
      · exact forall_spellings_simplifyBlock computed third
      · rw [blockSpellings_singleton, spellings]
        refine forall_mem_append.mpr ⟨forall_spellings_fold computed first, ?_⟩
        exact forall_mem_append.mpr ⟨forall_spellings_simplifyBlock computed second,
          forall_spellings_simplifyBlock computed third⟩
  | loop test body =>
    obtain ⟨first, second⟩ := forall_mem_append.mp all
    rw [simplify]
    split
    · nofun
    · rw [blockSpellings_singleton]
      exact forall_mem_append.mpr ⟨forall_spellings_fold computed first,
        forall_spellings_simplifyBlock computed second⟩
  | ret value | eval value =>
    rw [simplify, blockSpellings_singleton]
    exact forall_spellings_fold computed all
  | leave => nofun

theorem forall_spellings_simplifyBlock (computed : Word.OfComputed holds) {block : List Stmt}
    (all : ∀ spelling ∈ blockSpellings block, holds spelling) :
    ∀ spelling ∈ blockSpellings (simplifyBlock block), holds spelling := by
  cases block with
  | nil => exact all
  | cons stmt others =>
    obtain ⟨first, second⟩ := forall_mem_append.mp all
    rw [simplifyBlock]
    split
    · exact forall_spellings_simplify computed first
    · rw [blockSpellings_append]
      exact forall_mem_append.mpr ⟨forall_spellings_simplify computed first,
        forall_spellings_simplifyBlock computed second⟩

end

end Stmt

variable (computed : Word.OfComputed holds)

include computed

/-- A member is simplified. -/
theorem Member.forall_spellings_simplify {member : Member}
    (all : ∀ spelling ∈ member.spellings, holds spelling) :
    ∀ spelling ∈ member.simplify.spellings, holds spelling := by
  cases member with
  | field decl =>
    obtain ⟨first, second⟩ := forall_mem_cons.mp all
    exact forall_mem_cons.mpr ⟨first, forall_spellings_fold computed second⟩
  | method decl =>
    obtain ⟨name, others⟩ := forall_mem_cons.mp all
    obtain ⟨params, others⟩ := forall_mem_append.mp others
    obtain ⟨result, body⟩ := forall_mem_append.mp others
    refine forall_mem_cons.mpr ⟨name, forall_mem_append.mpr ⟨params, ?_⟩⟩
    exact forall_mem_append.mpr ⟨result, forall_spellings_simplifyBlock computed body⟩

/-- A class is simplified. -/
theorem ClassDecl.forall_spellings_simplify {decl : ClassDecl}
    (all : ∀ spelling ∈ decl.spellings, holds spelling) :
    ∀ spelling ∈ decl.simplify.spellings, holds spelling := by
  obtain ⟨name, others⟩ := forall_mem_cons.mp all
  obtain ⟨base, others⟩ := forall_mem_append.mp others
  obtain ⟨init, members⟩ := forall_mem_append.mp others
  refine forall_mem_cons.mpr ⟨name, forall_mem_append.mpr ⟨base, ?_⟩⟩
  exact forall_mem_append.mpr ⟨forall_spellings_simplifyBlock computed init,
    Word.forall_flatMap_map members (Member.forall_spellings_simplify computed)⟩

theorem Program.forall_spellings_simplify (all : ∀ spelling ∈ program.spellings, holds spelling) :
    ∀ spelling ∈ program.simplify.spellings, holds spelling :=
  Word.forall_flatMap_map all (ClassDecl.forall_spellings_simplify computed)

end Simplification

namespace Program

/-- Simplifying a program makes up no names and numbers other than those that are computed. -/
theorem allWritten_simplify (written : Word.AllWritten program.spellings) :
    Word.AllWritten program.simplify.spellings :=
  forall_spellings_simplify (fun _ => Word.IsComputed.isWritten) written

/-! ## Programs -/

/-- Whether no name and no number in a program starts with a minus sign. -/
def isUnsigned (program : Program) : Bool := !program.spellings.any Word.isSigned

theorem isUnsigned_iff :
    program.isUnsigned = true ↔ ∀ spelling ∈ program.spellings, Word.isSigned spelling = false := by
  unfold isUnsigned
  rw [Bool.not_eq_true', any_eq_false]
  exact forall₂_congr fun _ _ => Iff.of_eq (Bool.not_eq_true _)

/-- The source text of a simplified program that was read is read as the simplified program just when
no number that was computed is negative and there is room for its levels. -/
theorem ofText_source_simplify_iff {text : String} {program : Program}
    (read : ofText text = .ok program) :
    (∃ again, ofText program.simplify.source = .ok again ∧
        again.erase = program.simplify.erase) ↔
      program.simplify.isUnsigned = true ∧ program.simplify.nesting ≤ maxDepth := by
  rw [isUnsigned_iff]
  constructor
  · rintro ⟨again, run, same⟩
    -- the words of what is read are found by the scanner, whatever their positions
    have found := (lexical_iff_isFound again).mp (lexical_of_ofText run)
    rw [← again.spellings_erase, same, spellings_erase] at found
    refine ⟨fun spelling inside => (found spelling inside).isSigned_eq, ?_⟩
    rcases ofText_source_of_lexical ((lexical_iff_isFound _).mpr found) with
      ⟨room, -⟩ | ⟨-, position, deep⟩
    · exact room
    · rw [run] at deep
      cases deep
  · rintro ⟨unsigned, room⟩
    -- simplification adds only what is found or signed to what was found before
    have written : Word.AllWritten program.spellings := fun spelling inside =>
      .inl ((lexical_iff_isFound program).mp (lexical_of_ofText read) spelling inside)
    have found : ∀ spelling ∈ program.simplify.spellings, Word.IsFound spelling := by
      intro spelling inside
      refine (allWritten_simplify written spelling inside).resolve_right ?_
      rw [unsigned spelling inside]
      exact Bool.false_ne_true
    rcases ofText_source_of_lexical ((lexical_iff_isFound _).mpr found) with
      ⟨-, again⟩ | ⟨beyond, -⟩
    · exact again
    · exact absurd room (Nat.not_le.mpr beyond)

/-- A class with a field whose initial value is a difference. -/
def difference (left right : Expr) : Program :=
  ⟨[⟨"A", none, [], [.field ⟨"x", .binary .sub left right left.position, ⟨1, 12⟩⟩], ⟨1, 1⟩⟩]⟩

/-- A positive difference of doubles is printed as a number and read again. -/
theorem ofText_source_simplify_difference :
    let program := difference (.real "7.5" ⟨1, 20⟩) (.real "2.25" ⟨1, 26⟩)
    ofText "class A is var x : 7.5 - 2.25 end" = .ok program ∧
      program.simplify.source = "class A is\n    var x : 5.25\nend\n" ∧
      ∃ again, ofText program.simplify.source = .ok again ∧
        again.erase = program.simplify.erase := by
  intro program
  have read : ofText "class A is var x : 7.5 - 2.25 end" = .ok program := by decide +kernel
  exact ⟨read, by decide +kernel, (ofText_source_simplify_iff read).mpr (by decide +kernel)⟩

/-- A negative difference is printed with a sign, which does not start an expression. -/
theorem error_source_simplify_difference :
    let program := difference (.int "1" ⟨1, 20⟩) (.int "2" ⟨1, 24⟩)
    ofText "class A is var x : 1 - 2 end" = .ok program ∧
      program.simplify.source = "class A is\n    var x : -1\nend\n" ∧
      ofText program.simplify.source = .error ⟨.unexpectedToken "'-'" "expression", ⟨2, 13⟩⟩ := by
  intro program
  exact ⟨by decide +kernel, by decide +kernel, by decide +kernel⟩

end Program

end ClassLang
