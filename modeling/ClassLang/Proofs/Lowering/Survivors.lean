import ClassLang.Proofs.Lowering.Simplified
import ClassLang.Proofs.Lowering.Values
import ClassLang.Proofs.NormalForm

/-! # What is left of a program

Simplification computes operations, puts one of its blocks in the place of a branch and drops what
is not reached. Each expression that is left stands for one of the program, the folded one in its
place. The two are lowered against different frames, since a block that loses its branch loses its
scope as well. -/

namespace ClassLang

open List

/-! ## What is left of an expression -/

namespace Expr

/-- Whether an expression is an operation that folding computes. -/
def isComputed : Expr → Bool
  | .binary op left right _ => (result? op left.fold right.fold).isSome
  | _ => false

mutual

/-- The parts of an expression that are left when it is folded: what an operation was computed from
is gone. -/
def lasting : Expr → List Expr
  | .binary op left right position =>
    .binary op left right position ::
      if (binary op left right position).isComputed then []
      else left.lasting ++ right.lasting
  | .call callee arguments position =>
    .call callee arguments position :: (callee.receiverLasting ++ listLasting arguments)
  | expr => [expr]

/-- What is left of the receiver of a called member. -/
def receiverLasting : Expr → List Expr
  | .member receiver _ _ => receiver.lasting
  | _ => []

/-- The parts of expressions that are left when they are folded. -/
def listLasting : List Expr → List Expr
  | [] => []
  | expr :: rest => expr.lasting ++ listLasting rest

end

theorem listLasting_eq (exprs : List Expr) : listLasting exprs = exprs.flatMap lasting := by
  induction exprs with
  | nil => rfl
  | cons expr rest ih => rw [listLasting, ih, flatMap_cons]

/-- The operands of an expression are left, unless it is computed. -/
theorem lasting_eq (expr : Expr) :
    expr.lasting = expr :: if expr.isComputed then [] else expr.operands.flatMap lasting := by
  cases expr with
  | binary op left right => simp [lasting, operands]
  | call callee arguments =>
    rw [lasting, listLasting_eq]
    cases callee <;> rfl
  | _ => rfl

/-- The operands of a call of something without a name are its arguments. -/
theorem operands_call {callee : Expr} (notNamed : callee.isNamed = false) (arguments : List Expr)
    (position : Position) : (call callee arguments position).operands = arguments := by
  cases callee with
  | ident | member => cases notNamed
  | _ => rfl

theorem foldList_eq (exprs : List Expr) : foldList exprs = exprs.map fold := by
  induction exprs with
  | nil => rfl
  | cons expr rest ih => rw [foldList, ih, map_cons]

/-- A folded expression has its operands folded, unless it is computed. -/
theorem operands_fold (expr : Expr) :
    expr.fold.operands = if expr.isComputed then [] else expr.operands.map fold := by
  cases expr with
  | binary op left right =>
    rw [fold, combine_eq, isComputed]
    cases result? op left.fold right.fold with
    | none => rfl
    | some result => cases result <;> rfl
  | call callee arguments =>
    rw [fold, foldList_eq]
    cases callee with
    | binary op left right place => exact operands_call (isNamed_combine _ _ _ _).1 _ _
    | _ => rfl
  | _ => rfl

/-- An operation that is not computed stays, with its operands folded. -/
theorem fold_binary {op : BinaryOp} {left right : Expr} {position : Position}
    (notComputed : (binary op left right position).isComputed = false) :
    (binary op left right position).fold = .binary op left.fold right.fold position := by
  have unknown : result? op left.fold right.fold = none :=
    Option.isNone_iff_eq_none.mp (Option.isSome_eq_false_iff.mp notComputed)
  rw [fold, combine_eq, unknown]
  rfl

/-- What is left of an expression, folded, is what the folded expression is computed from. -/
theorem map_fold_lasting (expr : Expr) : expr.lasting.map fold = expr.fold.parts := by
  induction expr using operand_induction with
  | step expr ih =>
    rw [lasting_eq, parts_eq, operands_fold, map_cons]
    split
    · rfl
    · rw [map_flatMap, flatMap_map]
      exact congrArg (expr.fold :: ·) (flatMap_congr ih)

/-- What is left of an expression is among its parts, in their order. -/
theorem lasting_sublist_parts (expr : Expr) : expr.lasting.Sublist expr.parts := by
  induction expr using operand_induction with
  | step expr ih =>
    rw [lasting_eq, parts_eq]
    refine Sublist.cons_cons _ ?_
    split
    · exact nil_sublist _
    · exact Sublist.flatMap_right _ ih

theorem lasting_subset_of_operand {operand expr : Expr} (notComputed : expr.isComputed = false)
    (mem : operand ∈ expr.operands) : operand.lasting ⊆ expr.lasting := by
  rw [expr.lasting_eq, notComputed]
  exact fun part inside => mem_cons_of_mem _ (mem_flatMap.mpr ⟨operand, mem, inside⟩)

/-- What is left of a part that is left is left of the whole. -/
theorem lasting_subset {part expr : Expr} (mem : part ∈ expr.lasting) :
    part.lasting ⊆ expr.lasting := by
  induction expr using operand_induction with
  | step expr ih =>
    cases computed : expr.isComputed with
    | true =>
      rw [expr.lasting_eq, computed] at mem
      obtain rfl := mem_singleton.mp mem
      exact Subset.refl _
    | false =>
      rw [expr.lasting_eq, computed] at mem
      rcases mem_cons.mp mem with rfl | mem
      · exact Subset.refl _
      · obtain ⟨operand, inside, mem⟩ := mem_flatMap.mp mem
        exact Subset.trans (ih operand inside mem) (lasting_subset_of_operand computed inside)

/-- A name that is left of an expression occurs in it. -/
theorem anyPlain_of_lasting {name : String} {types : List TypeRef} {position : Position}
    {expr : Expr} (mem : .ident name types position ∈ expr.lasting) :
    Occurrence.anyPlain name expr.occurrences = true := by
  have occurs : ⟨position, name, false⟩ ∈ expr.occurrences := by
    have part := expr.lasting_sublist_parts.subset mem
    clear mem
    induction expr using operand_induction with
    | step expr ih =>
      rw [expr.parts_eq] at part
      rcases mem_cons.mp part with rfl | part
      · exact mem_singleton_self _
      · obtain ⟨operand, inside, part⟩ := mem_flatMap.mp part
        exact occurrences_subset_of_operand inside (ih operand inside part)
  exact any_eq_true.mpr ⟨_, occurs, by simp⟩

end Expr

/-! ## What is left of statements -/

/-- An expression that is left when a program is simplified, with its frames before and after. -/
structure Survivor where
  expr : Expr
  /-- The frame that it is lowered against. -/
  before : Frame
  /-- The frame that it is lowered against in the simplified program. -/
  after : Frame

namespace Survivor

/-- The expression in the program. -/
def original (survivor : Survivor) : Framed := ⟨survivor.before, survivor.expr⟩

/-- What takes its place in the simplified program. -/
def result (survivor : Survivor) : Framed := ⟨survivor.after, survivor.expr.fold⟩

/-- The parts of the expression that are left. -/
def parts (survivor : Survivor) : List Survivor :=
  survivor.expr.lasting.map fun part => ⟨part, survivor.before, survivor.after⟩

end Survivor

namespace Stmt

mutual

/-- The expressions that are left of a statement. The statements of a block that takes the place of
a branch lose their scope. -/
def remains (before after : Frame) : Stmt → List Survivor
  | .declare _ init _ => [⟨init, before, after⟩]
  | .assign _ value _ => [⟨value, before, after⟩]
  | .branch test body none _ =>
    match test.fold.asBool? with
    | some true => blockRemains before.enter after body
    | some false => []
    | none => ⟨test, before, after⟩ :: blockRemains before.enter after.enter body
  | .branch test body (some alternative) _ =>
    match test.fold.asBool? with
    | some true => blockRemains before.enter after body
    | some false =>
      blockRemains (before.skip (blockVariables body)).enter after alternative
    | none =>
      ⟨test, before, after⟩ :: (blockRemains before.enter after.enter body ++
        blockRemains (before.skip (blockVariables body)).enter
          (after.skip (blockVariables (simplifyBlock body))).enter alternative)
  | .loop test body _ =>
    if test.fold.asBool? = some false then []
    else ⟨test, before, after⟩ :: blockRemains before.enter after.enter body
  | .ret value _ => [⟨value, before, after⟩]
  | .leave _ => []
  | .eval value _ => [⟨value, before, after⟩]

/-- The expressions that are left of statements. -/
def blockRemains (before after : Frame) : List Stmt → List Survivor
  | [] => []
  | stmt :: rest =>
    stmt.remains before after ++
      if endsInReturn stmt.simplify then []
      else blockRemains (before.past stmt) (after.pastAll stmt.simplify) rest

end

/-- What is left of a statement is what takes its place, if that is so of its blocks. -/
theorem map_result_remains_of_blocks {stmt : Stmt} (inner : ∀ block ∈ stmt.blocks, ∀ before after,
      (blockRemains before after block).map Survivor.result =
        blockFramed after (simplifyBlock block)) (before after : Frame) :
    (stmt.remains before after).map Survivor.result = blockFramed after stmt.simplify := by
  cases stmt with
  | branch test body alternative =>
    have taken := inner body mem_cons_self
    cases alternative with
    | none =>
      rw [remains, simplify]
      rcases test.fold.asBool? with _ | _ | _
      · rw [map_cons, taken, blockFramed_singleton]
        rfl
      · rfl
      · exact taken _ _
    | some alternative =>
      have otherwise := inner alternative (mem_cons_of_mem _ (mem_singleton_self _))
      rw [remains, simplify]
      rcases test.fold.asBool? with _ | _ | _
      · rw [map_cons, map_append, taken, otherwise, blockFramed_singleton]
        rfl
      · exact otherwise _ _
      · exact taken _ _
  | loop test body =>
    have repeated := inner body mem_cons_self
    rw [remains, simplify]
    split
    · rfl
    · rw [map_cons, repeated, blockFramed_singleton]
      rfl
  | _ => rfl

/-- What is left of statements are the expressions of the simplified statements. -/
theorem map_result_blockRemains (block : List Stmt) (before after : Frame) :
    (blockRemains before after block).map Survivor.result =
      blockFramed after (simplifyBlock block) := by
  induction block using block_induction generalizing before after with
  | nil => rfl
  | cons stmt rest inner later =>
    rw [blockRemains, simplifyBlock, map_append, map_result_remains_of_blocks inner]
    split
    · exact append_nil _
    · rw [later, blockFramed_append]

/-- What is left of a statement is among its expressions, if that is so of its blocks. -/
theorem map_original_remains_of_blocks {stmt : Stmt} (inner : ∀ block ∈ stmt.blocks, ∀ before after,
      ((blockRemains before after block).map Survivor.original).Sublist
        (blockFramed before block)) (before after : Frame) :
    ((stmt.remains before after).map Survivor.original).Sublist (stmt.framed before) := by
  cases stmt with
  | branch test body alternative =>
    have taken := inner body mem_cons_self
    cases alternative with
    | none =>
      rw [remains, framed]
      split
      · exact (taken _ _).cons _
      · exact nil_sublist _
      · exact (taken _ _).cons_cons _
    | some alternative =>
      have otherwise := inner alternative (mem_cons_of_mem _ (mem_singleton_self _))
      rw [remains, framed]
      split
      · exact ((taken _ _).trans (sublist_append_left _ _)).cons _
      · exact ((otherwise _ _).trans (sublist_append_right _ _)).cons _
      · rw [map_cons, map_append]
        exact ((taken _ _).append (otherwise _ _)).cons_cons _
  | loop test body =>
    rw [remains, framed]
    split
    · exact nil_sublist _
    · exact (inner body mem_cons_self _ _).cons_cons _
  | _ => exact Sublist.refl _

/-- What is left of statements is among their expressions, in their order. -/
theorem map_original_blockRemains (block : List Stmt) (before after : Frame) :
    ((blockRemains before after block).map Survivor.original).Sublist
      (blockFramed before block) := by
  induction block using block_induction generalizing before after with
  | nil => exact Sublist.refl _
  | cons stmt rest inner later =>
    rw [blockRemains, blockFramed, map_append]
    refine (map_original_remains_of_blocks inner _ _).append ?_
    split
    · exact nil_sublist _
    · exact later _ _

end Stmt

/-! ## What is left of a program -/

/-- The expressions that are left of a class. -/
def ClassDecl.remains (program : Program) (decl : ClassDecl) : List Survivor :=
  let start (params : List Param) : Frame := .ofParams program decl params
  let start' (params : List Param) : Frame := .ofParams program.simplify decl.simplify params
  decl.fields.map (fun field => ⟨field.init, start [], start' []⟩) ++
    Stmt.blockRemains (start []) (start' []) decl.init ++
    decl.methods.flatMap fun method =>
      Stmt.blockRemains (start method.params) (start' method.params) method.body

/-- The expressions that are left of a program. -/
def Program.remains (program : Program) : List Survivor :=
  program.classes.flatMap (ClassDecl.remains program)

/-- All that is still computed in a program when it is simplified. -/
def Program.survivors (program : Program) : List Survivor :=
  program.remains.flatMap Survivor.parts

namespace ClassDecl

/-- What is left of a class are the expressions of the simplified class. -/
theorem map_result_remains (program : Program) (decl : ClassDecl) :
    (decl.remains program).map Survivor.result = decl.simplify.framed program.simplify := by
  unfold remains framed
  rw [fields_simplify, methods_simplify, map_append, map_append,
    map_map, map_map, map_flatMap, flatMap_map, Stmt.map_result_blockRemains]
  simp only [Stmt.map_result_blockRemains]
  rfl

/-- What is left of a class is among its expressions, in their order. -/
theorem map_original_remains (program : Program) (decl : ClassDecl) :
    ((decl.remains program).map Survivor.original).Sublist (decl.framed program) := by
  unfold remains framed
  rw [map_append, map_append, map_map, map_flatMap]
  refine (Sublist.append (Sublist.refl _) ?_).append ?_
  · exact Stmt.map_original_blockRemains _ _ _
  · exact Sublist.flatMap_right _ fun method _ => Stmt.map_original_blockRemains _ _ _

end ClassDecl

namespace Program

variable {program : Program}

/-- All that is computed in a simplified program is left of the program. -/
theorem map_result_survivors (program : Program) :
    program.survivors.map Survivor.result = program.simplify.values := by
  have parts (survivor : Survivor) :
      survivor.parts.map Survivor.result = survivor.result.parts := by
    unfold Survivor.parts Framed.parts Survivor.result
    rw [← Expr.map_fold_lasting, map_map, map_map]
    rfl
  have whole : program.remains.map Survivor.result = program.simplify.framed := by
    unfold remains framed simplify
    rw [map_flatMap, flatMap_map]
    simp only [ClassDecl.map_result_remains]
    rfl
  unfold survivors values
  rw [← whole, map_flatMap, flatMap_map]
  simp only [parts]

/-- What is left of a program is computed in it, in the same order. -/
theorem map_original_survivors (program : Program) :
    (program.survivors.map Survivor.original).Sublist program.values := by
  have parts (survivor : Survivor) :
      (survivor.parts.map Survivor.original).Sublist survivor.original.parts := by
    unfold Survivor.parts Framed.parts
    rw [map_map]
    exact (Expr.lasting_sublist_parts _).map _
  have whole : (program.remains.map Survivor.original).Sublist program.framed := by
    unfold remains framed
    rw [map_flatMap]
    exact Sublist.flatMap_right _ fun decl _ => ClassDecl.map_original_remains program decl
  unfold survivors values
  rw [map_flatMap]
  refine Sublist.trans (Sublist.flatMap_right _ fun survivor _ => parts survivor) ?_
  have flat := whole.flatMap Framed.parts
  rwa [flatMap_map] at flat

/-- What is left of a part that is left is left. -/
theorem mem_survivors_of_lasting {survivor : Survivor} (mem : survivor ∈ program.survivors)
    {part : Expr} (left : part ∈ survivor.expr.lasting) :
    ⟨part, survivor.before, survivor.after⟩ ∈ program.survivors := by
  obtain ⟨whole, inProgram, inWhole⟩ := mem_flatMap.mp mem
  obtain ⟨expr, lasting, rfl⟩ := mem_map.mp inWhole
  exact mem_flatMap.mpr ⟨whole, inProgram,
    mem_map.mpr ⟨part, Expr.lasting_subset lasting left, rfl⟩⟩

/-- Names that are left of an expression are left of the program. -/
theorem mem_survivors_of_remains {survivor : Survivor} (mem : survivor ∈ program.remains)
    {part : Expr} (left : part ∈ survivor.expr.lasting) :
    ⟨part, survivor.before, survivor.after⟩ ∈ program.survivors :=
  mem_flatMap.mpr ⟨survivor, mem, mem_map.mpr ⟨part, left, rfl⟩⟩

end Program

end ClassLang
