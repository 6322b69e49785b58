import ClassLang.Proofs.Folding

/-! # Normal forms

A program is normal if there is nothing left to simplify in it: no operation that can be computed, no
decided branch, no loop that never runs and nothing behind a return. Simplification makes every
program normal and leaves the normal ones as they are. Computing an operation, putting a block in
the place of a branch and dropping statements do not make anything new to simplify, since the parts
are normal before they are put together. -/

namespace ClassLang

open List

/-! ## Expressions -/

/-- What an operation on two operands is computed to. -/
def Expr.result? (op : BinaryOp) (left right : Expr) : Option Constant := do
  let left ← Constant.ofExpr? left
  let right ← Constant.ofExpr? right
  Constant.binary? op left right

mutual

/-- Whether no operation in an expression can be computed. -/
def Expr.isNormal : Expr → Bool
  | .binary op left right _ =>
    left.isNormal && right.isNormal && (result? op left right).isNone
  | .member target _ _ => target.isNormal
  | .call callee arguments _ => callee.isNormal && listIsNormal arguments
  | _ => true

/-- Whether no operation in expressions can be computed. -/
def Expr.listIsNormal : List Expr → Bool
  | [] => true
  | expr :: rest => expr.isNormal && listIsNormal rest

end

/-- Operands are combined into the literal of the result, if there is one. -/
theorem Expr.combine_eq (op : BinaryOp) (left right : Expr) (position : Position) :
    combine op left right position =
      ((result? op left right).map (Constant.toExpr position)).getD
        (.binary op left right position) := by
  unfold combine
  cases result : result? op left right <;>
  · unfold result? at result
    dsimp only
    rw [result]
    rfl

theorem Constant.isNormal_toExpr (constant : Constant) (position : Position) :
    (constant.toExpr position).isNormal = true := by
  cases constant <;> rfl

namespace Expr

/-- Combining normal operands makes nothing new to compute. -/
theorem isNormal_combine (op : BinaryOp) {left right : Expr} (position : Position)
    (first : left.isNormal = true) (second : right.isNormal = true) :
    (combine op left right position).isNormal = true := by
  rw [combine_eq]
  cases result : result? op left right with
  | some constant => exact constant.isNormal_toExpr position
  | none =>
    change (left.isNormal && right.isNormal && (result? op left right).isNone) = true
    rw [first, second, result]
    rfl

mutual

/-- A folded expression is normal. -/
theorem isNormal_fold (expr : Expr) : expr.fold.isNormal = true := by
  cases expr with
  | binary op left right position =>
    exact isNormal_combine op position left.isNormal_fold right.isNormal_fold
  | member target name =>
    rw [fold, isNormal, target.isNormal_fold]
  | call callee arguments =>
    rw [fold, isNormal, callee.isNormal_fold, listIsNormal_foldList arguments]
    rfl
  | _ => rfl

theorem listIsNormal_foldList (exprs : List Expr) : listIsNormal (foldList exprs) = true := by
  cases exprs with
  | nil => rfl
  | cons expr rest =>
    rw [foldList, listIsNormal, expr.isNormal_fold, listIsNormal_foldList rest]
    rfl

end

mutual

/-- A normal expression stays as it is. -/
theorem fold_of_isNormal (expr : Expr) (normal : expr.isNormal = true) : expr.fold = expr := by
  cases expr with
  | binary op left right =>
    rw [isNormal, Bool.and_eq_true, Bool.and_eq_true, Option.isNone_iff_eq_none] at normal
    obtain ⟨⟨first, second⟩, uncomputed⟩ := normal
    rw [fold, left.fold_of_isNormal first, right.fold_of_isNormal second, combine_eq, uncomputed]
    rfl
  | member target name =>
    rw [fold, target.fold_of_isNormal normal]
  | call callee arguments =>
    rw [isNormal, Bool.and_eq_true] at normal
    rw [fold, callee.fold_of_isNormal normal.1, foldList_of_listIsNormal arguments normal.2]
  | _ => rfl

theorem foldList_of_listIsNormal (exprs : List Expr)
    (normal : listIsNormal exprs = true) : foldList exprs = exprs := by
  cases exprs with
  | nil => rfl
  | cons expr rest =>
    rw [listIsNormal, Bool.and_eq_true] at normal
    rw [foldList, expr.fold_of_isNormal normal.1, foldList_of_listIsNormal rest normal.2]

end

theorem fold_eq_self_iff {expr : Expr} : expr.fold = expr ↔ expr.isNormal = true :=
  ⟨fun fixed => fixed ▸ expr.isNormal_fold, expr.fold_of_isNormal⟩

end Expr

/-! ## Statements -/

namespace Stmt

mutual

/-- Whether there is nothing to simplify in a statement. What is assigned to is left aside. -/
def isNormal : Stmt → Bool
  | .declare _ init _ => init.isNormal
  | .assign _ value _ => value.isNormal
  | .branch test body none _ =>
    test.isNormal && test.asBool?.isNone && blockIsNormal body
  | .branch test body (some alternative) _ =>
    test.isNormal && test.asBool?.isNone && blockIsNormal body && blockIsNormal alternative
  | .loop test body _ => test.isNormal && test.asBool? ≠ some false && blockIsNormal body
  | .ret value _ => value.isNormal
  | .leave _ => true
  | .eval value _ => value.isNormal

/-- Whether there is nothing to simplify in statements: in none of them, and a return is the last. -/
def blockIsNormal : List Stmt → Bool
  | [] => true
  | stmt :: rest => stmt.isNormal && (!stmt.isReturn || rest.isEmpty) && blockIsNormal rest

end

theorem blockIsNormal_singleton (stmt : Stmt) : blockIsNormal [stmt] = stmt.isNormal := by
  simp [blockIsNormal]

/-- A block that ends in no return can be followed by another one. -/
theorem blockIsNormal_append {first second : List Stmt}
    (normal : blockIsNormal first = true) (goesOn : endsInReturn first = false)
    (later : blockIsNormal second = true) : blockIsNormal (first ++ second) = true := by
  induction first with
  | nil => exact later
  | cons stmt rest ih =>
    rw [blockIsNormal, Bool.and_eq_true, Bool.and_eq_true] at normal
    obtain ⟨⟨here, last⟩, normalRest⟩ := normal
    cases rest with
    | nil =>
      have passes : stmt.isReturn = false := goesOn
      rw [singleton_append, blockIsNormal, here, passes, later]
      rfl
    | cons next others =>
      have goesOnRest : endsInReturn (next :: others) = false := by
        rwa [endsInReturn, getLast?_cons_cons] at goesOn
      have passes : (!stmt.isReturn) = true := by simpa using last
      rw [cons_append, blockIsNormal, here, passes, ih normalRest goesOnRest]
      rfl

mutual

/-- What takes the place of a statement is normal. -/
theorem blockIsNormal_simplify (stmt : Stmt) : blockIsNormal stmt.simplify = true := by
  cases stmt with
  | branch test body alternative =>
    cases alternative with
    | none =>
      rw [simplify]
      split
      · exact blockIsNormal_simplifyBlock body
      · rfl
      · next undecided =>
          rw [blockIsNormal_singleton, isNormal, test.isNormal_fold, undecided,
            blockIsNormal_simplifyBlock body]
          rfl
    | some alternative =>
      rw [simplify]
      split
      · exact blockIsNormal_simplifyBlock body
      · exact blockIsNormal_simplifyBlock alternative
      · next undecided =>
          rw [blockIsNormal_singleton, isNormal, test.isNormal_fold, undecided,
            blockIsNormal_simplifyBlock body, blockIsNormal_simplifyBlock alternative]
          rfl
  | loop test body =>
    rw [simplify]
    split
    · rfl
    · next runs =>
        rw [blockIsNormal_singleton, isNormal, test.isNormal_fold,
          blockIsNormal_simplifyBlock body, decide_eq_true runs]
        rfl
  | leave => rfl
  | declare name value position | assign target value position | ret value position
  | eval value =>
    rw [simplify, blockIsNormal_singleton, isNormal, value.isNormal_fold]

theorem blockIsNormal_simplifyBlock (block : List Stmt) :
    blockIsNormal (simplifyBlock block) = true := by
  cases block with
  | nil => rfl
  | cons stmt rest =>
    have head := stmt.blockIsNormal_simplify
    rw [simplifyBlock]
    split
    · exact head
    · next goesOn =>
        exact blockIsNormal_append head (Bool.eq_false_iff.mpr goesOn)
          (blockIsNormal_simplifyBlock rest)

end

mutual

/-- A normal statement stays as it is. -/
theorem simplify_of_isNormal (stmt : Stmt) (normal : stmt.isNormal = true) :
    stmt.simplify = [stmt] := by
  cases stmt with
  | branch test body alternative =>
    cases alternative with
    | none =>
      rw [isNormal, Bool.and_eq_true, Bool.and_eq_true, Option.isNone_iff_eq_none] at normal
      obtain ⟨⟨normalTest, undecided⟩, normalBody⟩ := normal
      rw [simplify, test.fold_of_isNormal normalTest, undecided,
        simplifyBlock_of_blockIsNormal body normalBody]
    | some alternative =>
      rw [isNormal, Bool.and_eq_true, Bool.and_eq_true, Bool.and_eq_true,
        Option.isNone_iff_eq_none] at normal
      obtain ⟨⟨⟨normalTest, undecided⟩, normalBody⟩, normalAlternative⟩ := normal
      rw [simplify, test.fold_of_isNormal normalTest, undecided,
        simplifyBlock_of_blockIsNormal body normalBody,
        simplifyBlock_of_blockIsNormal alternative normalAlternative]
  | loop test body =>
    rw [isNormal, Bool.and_eq_true, Bool.and_eq_true, decide_eq_true_eq] at normal
    obtain ⟨⟨normalTest, runs⟩, normalBody⟩ := normal
    rw [simplify, test.fold_of_isNormal normalTest, if_neg runs,
      simplifyBlock_of_blockIsNormal body normalBody]
  | leave => rfl
  | declare name value position | assign target value position | ret value position
  | eval value =>
    rw [simplify, value.fold_of_isNormal normal]

theorem simplifyBlock_of_blockIsNormal (block : List Stmt)
    (normal : blockIsNormal block = true) : simplifyBlock block = block := by
  cases block with
  | nil => rfl
  | cons stmt rest =>
    rw [blockIsNormal, Bool.and_eq_true, Bool.and_eq_true] at normal
    obtain ⟨⟨normalStmt, last⟩, normalRest⟩ := normal
    rw [simplifyBlock, stmt.simplify_of_isNormal normalStmt,
      simplifyBlock_of_blockIsNormal rest normalRest]
    change (if stmt.isReturn = true then [stmt] else stmt :: rest) = stmt :: rest
    split
    · next returns =>
        -- nothing stands behind a return
        rw [returns] at last
        obtain rfl : rest = [] := isEmpty_iff.mp last
        rfl
    · rfl

end

end Stmt

/-! ## Programs -/

/-- Whether there is nothing to simplify in a member of a class. -/
def Member.isNormal : Member → Bool
  | .field decl => decl.init.isNormal
  | .method decl => Stmt.blockIsNormal decl.body

/-- Whether there is nothing to simplify in a class. -/
def ClassDecl.isNormal (decl : ClassDecl) : Bool :=
  Stmt.blockIsNormal decl.init && decl.members.all Member.isNormal

/-- Whether there is nothing to simplify in a program. -/
def Program.isNormal (program : Program) : Bool := program.classes.all ClassDecl.isNormal

theorem Member.isNormal_simplify (member : Member) : member.simplify.isNormal = true := by
  cases member with
  | field decl => exact decl.init.isNormal_fold
  | method decl => exact Stmt.blockIsNormal_simplifyBlock decl.body

theorem Member.simplify_of_isNormal {member : Member} (normal : member.isNormal = true) :
    member.simplify = member := by
  cases member with
  | field decl => rw [Member.simplify, decl.init.fold_of_isNormal normal]
  | method decl => rw [Member.simplify, Stmt.simplifyBlock_of_blockIsNormal decl.body normal]

theorem ClassDecl.isNormal_simplify (decl : ClassDecl) : decl.simplify.isNormal = true := by
  rw [ClassDecl.isNormal, ClassDecl.simplify, Stmt.blockIsNormal_simplifyBlock, all_map]
  exact all_eq_true.mpr fun member _ => member.isNormal_simplify

/-- A normal class stays as it is. -/
theorem ClassDecl.simplify_of_isNormal {decl : ClassDecl} (normal : decl.isNormal = true) :
    decl.simplify = decl := by
  obtain ⟨normalInit, normalMembers⟩ := Bool.and_eq_true_iff.mp normal
  have members : decl.members.map Member.simplify = decl.members := by
    refine (map_congr_left fun member mem => ?_).trans (map_id _)
    exact Member.simplify_of_isNormal (all_eq_true.mp normalMembers member mem)
  rw [ClassDecl.simplify, Stmt.simplifyBlock_of_blockIsNormal decl.init normalInit, members]

namespace Program

theorem isNormal_simplify (program : Program) : program.simplify.isNormal = true := by
  rw [isNormal, simplify, all_map]
  exact all_eq_true.mpr fun decl _ => decl.isNormal_simplify

/-- A normal program stays as it is. -/
theorem simplify_of_isNormal {program : Program} (normal : program.isNormal = true) :
    program.simplify = program := by
  have classes : program.classes.map ClassDecl.simplify = program.classes := by
    refine (map_congr_left fun decl mem => ?_).trans (map_id _)
    exact ClassDecl.simplify_of_isNormal (all_eq_true.mp normal decl mem)
  rw [simplify, classes]

/-- Simplification computes normal forms: what it gives is normal, and the programs that it leaves as
they are, positions included, are exactly the normal ones. The same holds of folding expressions. So
there is nothing left to do for a second round of either. -/
theorem simplify_normalizes (program : Program) :
    program.simplify.isNormal = true ∧
      (program.simplify = program ↔ program.isNormal = true) ∧
      program.simplify.simplify = program.simplify ∧
      ∀ expr : Expr, expr.fold.isNormal = true ∧ (expr.fold = expr ↔ expr.isNormal = true) ∧
        expr.fold.fold = expr.fold := by
  refine ⟨program.isNormal_simplify, ?_, ?_, fun expr => ?_⟩
  · exact ⟨fun fixed => fixed ▸ program.isNormal_simplify, simplify_of_isNormal⟩
  · exact simplify_of_isNormal program.isNormal_simplify
  · exact ⟨expr.isNormal_fold, Expr.fold_eq_self_iff, expr.fold.fold_of_isNormal expr.isNormal_fold⟩

end Program

end ClassLang
