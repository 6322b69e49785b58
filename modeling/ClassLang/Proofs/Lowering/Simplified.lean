import ClassLang.Proofs.Acceptance
import ClassLang.Proofs.Lowering.Classes
import ClassLang.Proofs.Numerals

/-! # Code of simplified programs

A program that has code has code when it is simplified, with the same classes, methods and entry. A
literal that simplification writes is one that lowering reads, and wherever an expression is moved,
every name that had a storage still has one, though not always the same. -/

namespace ClassLang

open List Stmt ClassDecl ClassLang.Frame ClassLang.Expr

/-! ## Computed literals -/

namespace Constant

/-- An integer is only computed if it fits into 64 bits. -/
theorem inRange_of_binary? {op : BinaryOp} {left right result : Constant}
    (computed : binary? op left right = some result) : result.InRange := by
  cases result with
  | real | bool => trivial
  | int value =>
    -- the kind of an integer result leaves only integers for the operands
    have kind := kind_binary? computed
    cases left with
    | int first =>
      cases right with
      | int second => exact (binary?_int.mp computed).2.2
      | real second | bool second => split at kind <;> cases kind
    | real first | bool first =>
      split at kind
      · cases kind
      · cases right <;> cases kind

/-- The literal of a constant is read, if it is no integer beyond 64 bits. -/
theorem isSome_ofExpr?_toExpr {constant : Constant} (inRange : constant.InRange)
    (position : Position) : (ofExpr? (constant.toExpr position)).isSome = true := by
  cases constant with
  | real value =>
    rw [toExpr, ofExpr?, Option.isSome_map]
    exact isSome_realOfText?_realText value
  | int value | bool value => rw [ofExpr?_toExpr inRange (by simp [kind])]; rfl

end Constant

/-! ## Expressions -/

/-- Whether an expression has code. -/
def Expr.Lowers (frame : Frame) (expr : Expr) : Prop := ∃ code, expr.lower frame = .ok code

/-- Whether a second frame has a storage for every name that has one in the first. Fields have the
same owners, and what is a variable stays one. -/
structure Frame.Supports (frame frame' : Frame) : Prop where
  owner : ∀ name, frame'.owner? name = frame.owner? name
  /-- Variables are variables. -/
  locals : ∀ name, (frame.locals.lookup name).isSome = true →
    (frame'.locals.lookup name).isSome = true

/-- Names keep a storage. -/
theorem Frame.Supports.isSome_storage? {frame frame' : Frame} (supports : frame.Supports frame')
    {name : String} (stored : (frame.storage? name).isSome = true) :
    (frame'.storage? name).isSome = true := by
  rw [Frame.isSome_storage?] at stored ⊢
  rw [supports.owner]
  exact stored.imp_left (supports.locals name)

namespace Expr

variable {frame frame' : Frame}

/-- A literal has code. -/
theorem lowers_of_known {expr : Expr} {constant : Constant}
    (known : Constant.ofExpr? expr = some constant) : expr.Lowers frame := by
  have literal (text : String) (position : Position) :
      literalCode (Constant.ofExpr? expr) text position = .ok [.const constant] := by
    rw [known, literalCode]
  cases expr with
  | int text position | real text position => exact ⟨_, literal text position⟩
  | bool value => exact ⟨_, rfl⟩
  | _ => cases known

/-- A name with a storage has code. -/
theorem lowers_ident {name : String} (stored : (frame.storage? name).isSome = true)
    (types : List TypeRef) (position : Position) : (ident name types position).Lowers frame := by
  obtain ⟨storage, found⟩ := Option.isSome_iff_exists.mp stored
  unfold Lowers lower loadName
  rw [found]
  cases storage with
  | slot slot => exact ⟨_, rfl⟩
  | field owner => exact ⟨_, rfl⟩

/-- An operation has code if its operands have, also if it is computed. -/
theorem lowers_combine {left right : Expr} (op : BinaryOp) (first : left.Lowers frame)
    (second : right.Lowers frame) (position : Position) :
    (combine op left right position).Lowers frame := by
  rcases combine_cases op left right position with
    combined | ⟨_, _, result, _, _, computed, combined⟩
  · obtain ⟨leftCode, leftLowered⟩ := first
    obtain ⟨rightCode, rightLowered⟩ := second
    rw [combined]
    exact ⟨_, ok_of_bind leftLowered (ok_of_bind rightLowered rfl)⟩
  · have inRange := Constant.inRange_of_binary? computed
    obtain ⟨constant, known⟩ :=
      Option.isSome_iff_exists.mp (Constant.isSome_ofExpr?_toExpr inRange position)
    rw [combined]
    exact lowers_of_known known

/-- An expression with code has code when it is folded, wherever names keep a storage. -/
theorem Emits.lowers_fold {expr : Expr} {code : List Instruction} (emits : Expr.Emits frame expr code)
    (supports : frame.Supports frame') : expr.fold.Lowers frame' := by
  induction emits with
  | @literal expr constant known =>
    have folded : expr.fold = expr := by
      cases expr with
      | binary | member | call => cases known
      | _ => rfl
    rw [folded]
    exact lowers_of_known known
  | self => exact ⟨_, rfl⟩
  | slot looked =>
    refine lowers_ident (supports.isSome_storage? ?_) _ _
    rw [storage?, looked]
    rfl
  | field looked owned =>
    refine lowers_ident (supports.isSome_storage? ?_) _ _
    rw [storage?, looked, owned]
    rfl
  | @member name owner position position' owned =>
    have found : frame'.owner? name = some owner := (supports.owner name).trans owned
    refine ⟨loadFieldCode owner name, ?_⟩
    change frame'.memberCode (.self position) name position' = _
    simp only [memberCode, found]
  | binary _ _ first second => exact lowers_combine _ first second _
  | write _ operand =>
    obtain ⟨argumentCode, lowered⟩ := operand
    exact ⟨_, ok_of_bind lowered rfl⟩
  | @convert name type argument types position position' code notWrite scalar _ operand =>
    obtain ⟨argumentCode, lowered⟩ := operand
    change ∃ code, (call (.ident name types position) [argument.fold] position').lower frame' =
      .ok code
    rw [lower, if_neg notWrite, scalar]
    exact ⟨_, ok_of_bind lowered rfl⟩
  | unary found _ operand =>
    obtain ⟨receiverCode, lowered⟩ := operand
    unfold Lowers
    rw [fold, fold, foldList, lower, found]
    exact ⟨_, ok_of_bind lowered rfl⟩
  | pair found _ _ first second =>
    obtain ⟨receiverCode, receiverLowered⟩ := first
    obtain ⟨argumentCode, argumentLowered⟩ := second
    unfold Lowers
    rw [fold, fold, foldList, foldList, lower, found]
    exact ⟨_, ok_of_bind receiverLowered (ok_of_bind argumentLowered rfl)⟩

theorem Lowers.fold {expr : Expr} (lowers : expr.Lowers frame) (supports : frame.Supports frame') :
    expr.fold.Lowers frame' := by
  obtain ⟨code, lowered⟩ := lowers
  exact (emits_lower lowered).lowers_fold supports

end Expr

/-! ## Statements -/

namespace Stmt

/-- Whether a statement has code, and which emitter is left behind it. -/
def Lowers (exit? : Option Label) (emitter : Emitter) (stmt : Stmt) (final : Emitter) : Prop :=
  ∃ code, stmt.lower exit? emitter = .ok (code, final)

/-- Whether statements have code, and which emitter is left behind them. -/
def BlockLowers (exit? : Option Label) (emitter : Emitter) (block : List Stmt)
    (final : Emitter) : Prop :=
  ∃ code, lowerBlock exit? emitter block = .ok (code, final)

section Lowers

variable {exit? : Option Label} {emitter final : Emitter} {test value target : Expr}
  {body alternative rest : List Stmt} {stmt : Stmt} {position : Position}

/-- There is code around other code if there is the other code. -/
theorem exists_around_iff {lowered : Lowered} {around : List Instruction → List Instruction} :
    (∃ code, (do return (around (← lowered), emitter) : Except Fault _) = .ok (code, final)) ↔
      (∃ code, lowered = .ok code) ∧ final = emitter := by
  constructor
  · rintro ⟨code, result⟩
    obtain ⟨inner, found, result⟩ := exists_ok_of_bind result
    cases result
    exact ⟨⟨inner, found⟩, rfl⟩
  · rintro ⟨⟨inner, found⟩, rfl⟩
    exact ⟨_, ok_of_bind found rfl⟩

/-- A declaration has code if its initial value has. -/
theorem lowers_declare {name : String} {init : Expr} :
    Lowers exit? emitter (.declare name init position) final ↔
      init.Lowers emitter.frame ∧ final = emitter.declare name (emitter.frame.kindOf init) :=
  exists_around_iff

/-- Only names with a storage are assigned to. -/
theorem lowers_assign :
    Lowers exit? emitter (.assign target value position) final ↔
      (∃ name types place, target = .ident name types place ∧
        (emitter.frame.storage? name).isSome = true) ∧
      value.Lowers emitter.frame ∧ final = emitter := by
  refine exists_around_iff.trans ?_
  constructor
  · rintro ⟨⟨code, assigned⟩, rfl⟩
    unfold assignCode at assigned
    split at assigned
    · next name types place =>
        obtain ⟨valueCode, evaluated, assigned⟩ := exists_ok_of_bind assigned
        refine ⟨⟨name, types, place, rfl, ?_⟩, ⟨valueCode, evaluated⟩, rfl⟩
        cases found : final.frame.storage? name with
        | none =>
          rw [found] at assigned
          cases assigned
        | some storage => rfl
    · cases assigned
  · rintro ⟨⟨name, types, place, rfl, stored⟩, ⟨valueCode, evaluated⟩, rfl⟩
    obtain ⟨storage, found⟩ := Option.isSome_iff_exists.mp stored
    refine ⟨?_, rfl⟩
    unfold assignCode
    dsimp only
    rw [found]
    cases storage with
    | slot slot => exact ⟨_, ok_of_bind evaluated rfl⟩
    | field owner => exact ⟨_, ok_of_bind evaluated rfl⟩

/-- A branch has code if its test and its statements have. -/
theorem lowers_branch :
    Lowers exit? emitter (.branch test body none position) final ↔
      test.Lowers emitter.frame ∧
      ∃ inner, BlockLowers exit? emitter.takeLabels.enter body inner ∧ final = inner.exit := by
  constructor
  · rintro ⟨code, lowered⟩
    rw [lower] at lowered
    obtain ⟨testCode, tested, lowered⟩ := exists_ok_of_bind lowered
    obtain ⟨⟨bodyCode, inner⟩, taken, result⟩ := exists_ok_of_bind lowered
    cases result
    exact ⟨⟨testCode, tested⟩, inner, ⟨bodyCode, taken⟩, rfl⟩
  · rintro ⟨⟨testCode, tested⟩, inner, ⟨bodyCode, taken⟩, rfl⟩
    exact ⟨_, ok_of_bind tested (ok_of_bind taken rfl)⟩

/-- A branch with an alternative has code if its test and both blocks have. -/
theorem lowers_alternative :
    Lowers exit? emitter (.branch test body (some alternative) position) final ↔
      test.Lowers emitter.frame ∧
      ∃ inner, BlockLowers exit? emitter.takeLabels.enter body inner ∧
      ∃ last, BlockLowers exit? inner.exit.enter alternative last ∧ final = last.exit := by
  constructor
  · rintro ⟨code, lowered⟩
    rw [lower] at lowered
    obtain ⟨testCode, tested, lowered⟩ := exists_ok_of_bind lowered
    obtain ⟨⟨bodyCode, inner⟩, taken, lowered⟩ := exists_ok_of_bind lowered
    obtain ⟨⟨alternativeCode, last⟩, otherwise, result⟩ := exists_ok_of_bind lowered
    cases result
    exact ⟨⟨testCode, tested⟩, inner, ⟨bodyCode, taken⟩, last, ⟨alternativeCode, otherwise⟩, rfl⟩
  · rintro ⟨⟨testCode, tested⟩, inner, ⟨bodyCode, taken⟩, last, ⟨alternativeCode, otherwise⟩, rfl⟩
    exact ⟨_, ok_of_bind tested (ok_of_bind taken (ok_of_bind otherwise rfl))⟩

/-- A loop has code if its test and its statements have. -/
theorem lowers_loop :
    Lowers exit? emitter (.loop test body position) final ↔
      test.Lowers emitter.frame ∧
      ∃ inner, BlockLowers (some (.numbered (emitter.nextLabel + 1))) emitter.takeLabels.enter body
        inner ∧ final = inner.exit := by
  constructor
  · rintro ⟨code, lowered⟩
    rw [lower] at lowered
    obtain ⟨testCode, tested, lowered⟩ := exists_ok_of_bind lowered
    obtain ⟨⟨bodyCode, inner⟩, repeated, result⟩ := exists_ok_of_bind lowered
    cases result
    exact ⟨⟨testCode, tested⟩, inner, ⟨bodyCode, repeated⟩, rfl⟩
  · rintro ⟨⟨testCode, tested⟩, inner, ⟨bodyCode, repeated⟩, rfl⟩
    exact ⟨_, ok_of_bind tested (ok_of_bind repeated rfl)⟩

/-- A return has code if its value has. -/
theorem lowers_ret :
    Lowers exit? emitter (.ret value position) final ↔
      value.Lowers emitter.frame ∧ final = emitter :=
  exists_around_iff

/-- An evaluation has code if its value has. -/
theorem lowers_eval :
    Lowers exit? emitter (.eval value position) final ↔
      value.Lowers emitter.frame ∧ final = emitter :=
  exists_around_iff

/-- Only loops are left. -/
theorem lowers_leave :
    Lowers exit? emitter (.leave position) final ↔ exit?.isSome = true ∧ final = emitter := by
  constructor
  · rintro ⟨code, lowered⟩
    cases exit? with
    | none => cases lowered
    | some endLabel =>
      cases lowered
      exact ⟨rfl, rfl⟩
  · rintro ⟨inLoop, rfl⟩
    obtain ⟨endLabel, rfl⟩ := Option.isSome_iff_exists.mp inLoop
    exact ⟨_, rfl⟩

/-- Statements have code if the first has and the rest has after it. -/
theorem blockLowers_cons :
    BlockLowers exit? emitter (stmt :: rest) final ↔
      ∃ middle, Lowers exit? emitter stmt middle ∧ BlockLowers exit? middle rest final := by
  constructor
  · rintro ⟨code, lowered⟩
    rw [lowerBlock] at lowered
    obtain ⟨⟨stmtCode, middle⟩, first, lowered⟩ := exists_ok_of_bind lowered
    obtain ⟨⟨restCode, last⟩, second, result⟩ := exists_ok_of_bind lowered
    cases result
    exact ⟨middle, ⟨stmtCode, first⟩, restCode, second⟩
  · rintro ⟨middle, ⟨stmtCode, first⟩, restCode, second⟩
    exact ⟨_, ok_of_bind first (ok_of_bind second rfl)⟩

/-- Statements in two rows have code one after the other. -/
theorem BlockLowers.append {first second : List Stmt} {middle : Emitter}
    (lowers : BlockLowers exit? emitter first middle)
    (later : BlockLowers exit? middle second final) :
    BlockLowers exit? emitter (first ++ second) final := by
  induction first generalizing emitter with
  | nil =>
    obtain ⟨code, lowered⟩ := lowers
    cases lowered
    exact later
  | cons stmt rest ih =>
    obtain ⟨next, here, lowers⟩ := blockLowers_cons.mp lowers
    exact blockLowers_cons.mpr ⟨next, here, ih lowers⟩

theorem BlockLowers.grows (lowers : BlockLowers exit? emitter body final)
    (nonempty : emitter.frame.locals.scopes ≠ []) : emitter.Grows final := by
  obtain ⟨code, lowered⟩ := lowers
  exact (emits_lowerBlock body lowered).grows nonempty

end Lowers

end Stmt

/-! ## Scopes that are kept -/

/-- Whether a second emitter is for the same class and has the same variables in scope. -/
structure Emitter.SameScopes (emitter emitter' : Emitter) : Prop where
  program : emitter'.frame.program = emitter.frame.program
  decl : emitter'.frame.decl = emitter.frame.decl
  scopes : emitter'.frame.locals.scopes = emitter.frame.locals.scopes

namespace Emitter.SameScopes

variable {emitter middle final : Emitter}

theorem refl : emitter.SameScopes emitter := ⟨rfl, rfl, rfl⟩

theorem trans (first : emitter.SameScopes middle) (second : middle.SameScopes final) :
    emitter.SameScopes final :=
  ⟨second.program.trans first.program, second.decl.trans first.decl,
    second.scopes.trans first.scopes⟩

theorem of_takeLabels (same : emitter.takeLabels.SameScopes final) : emitter.SameScopes final :=
  ⟨same.program, same.decl, same.scopes⟩

theorem nonempty (same : emitter.SameScopes final) (nonempty : emitter.frame.locals.scopes ≠ []) :
    final.frame.locals.scopes ≠ [] :=
  same.scopes ▸ nonempty

end Emitter.SameScopes

/-- After a block that is left again, the scopes are those before it. -/
theorem Stmt.BlockLowers.sameScopes {exit? : Option Label} {emitter inner : Emitter}
    {body : List Stmt} (lowers : Stmt.BlockLowers exit? emitter.enter body inner)
    (nonempty : emitter.frame.locals.scopes ≠ []) : emitter.SameScopes inner.exit := by
  have grows := lowers.grows (cons_ne_nil _ _)
  exact ⟨grows.program, grows.decl, grows.exit_scopes nonempty⟩

/-- A statement that declares nothing keeps the scopes. -/
theorem Stmt.Lowers.sameScopes {exit? : Option Label} {emitter final : Emitter} {stmt : Stmt}
    (lowers : stmt.Lowers exit? emitter final) (undeclared : stmt.declared? = none)
    (nonempty : emitter.frame.locals.scopes ≠ []) : emitter.SameScopes final := by
  cases stmt with
  | declare name init => cases undeclared
  | assign target value =>
    obtain ⟨-, -, rfl⟩ := lowers_assign.mp lowers
    exact .refl
  | branch test body alternative =>
    cases alternative with
    | none =>
      obtain ⟨-, inner, taken, rfl⟩ := lowers_branch.mp lowers
      exact (taken.sameScopes nonempty).of_takeLabels
    | some alternative =>
      obtain ⟨-, inner, taken, last, otherwise, rfl⟩ := lowers_alternative.mp lowers
      have same := (taken.sameScopes nonempty).of_takeLabels
      exact same.trans (otherwise.sameScopes (same.nonempty nonempty))
  | loop test body =>
    obtain ⟨-, inner, repeated, rfl⟩ := lowers_loop.mp lowers
    exact (repeated.sameScopes nonempty).of_takeLabels
  | ret value =>
    obtain ⟨-, rfl⟩ := lowers_ret.mp lowers
    exact .refl
  | leave =>
    obtain ⟨-, rfl⟩ := lowers_leave.mp lowers
    exact .refl
  | eval value =>
    obtain ⟨-, rfl⟩ := lowers_eval.mp lowers
    exact .refl

/-- Whether names that have a storage with one emitter have one with another. -/
structure Emitter.Supports (emitter emitter' : Emitter) : Prop where
  /-- Names keep a storage. -/
  frame : emitter.frame.Supports emitter'.frame
  nonempty : emitter.frame.locals.scopes ≠ []
  nonempty' : emitter'.frame.locals.scopes ≠ []

namespace Emitter.Supports

variable {emitter emitter' final final' : Emitter}

/-- The first emitter may be replaced by one with the same scopes. -/
theorem left (supports : emitter.Supports emitter') (same : emitter.SameScopes final) :
    final.Supports emitter' where
  frame.owner name := by
    rw [supports.frame.owner, owner?, owner?, same.program, same.decl]
  frame.locals name known := by
    refine supports.frame.locals name ?_
    rwa [Locals.lookup, same.scopes] at known
  nonempty := same.nonempty supports.nonempty
  nonempty' := supports.nonempty'

/-- The second emitter may be replaced by one with the same scopes. -/
theorem right (supports : emitter.Supports emitter') (same : emitter'.SameScopes final') :
    emitter.Supports final' where
  frame.owner name := by
    rw [← supports.frame.owner, owner?, owner?, same.program, same.decl]
  frame.locals name known := by
    rw [Locals.lookup, same.scopes]
    exact supports.frame.locals name known
  nonempty := supports.nonempty
  nonempty' := same.nonempty supports.nonempty'

/-- The second emitter may get more variables. -/
theorem grows (supports : emitter.Supports emitter') (grows : emitter'.Grows final') :
    emitter.Supports final' where
  frame.owner name := by
    rw [← supports.frame.owner, owner?, owner?, grows.program, grows.decl]
  frame.locals name known := by
    have found := supports.frame.locals name known
    obtain ⟨new, scope, outer, before, after⟩ := grows.scopes
    rw [Locals.lookup, before, findSome?_cons] at found
    rw [Locals.lookup, after, findSome?_cons, lookup_append]
    cases new.lookup name with
    | some found => rfl
    | none => exact found
  nonempty := supports.nonempty
  nonempty' := grows.nonempty

variable (supports : emitter.Supports emitter')

include supports

theorem enter : emitter.enter.Supports emitter' :=
  ⟨⟨supports.frame.owner, supports.frame.locals⟩, cons_ne_nil _ _, supports.nonempty'⟩

theorem enter_both : emitter.enter.Supports emitter'.enter :=
  ⟨⟨supports.frame.owner, supports.frame.locals⟩, cons_ne_nil _ _, cons_ne_nil _ _⟩

theorem takeLabels : emitter.takeLabels.Supports emitter'.takeLabels :=
  ⟨⟨supports.frame.owner, supports.frame.locals⟩, supports.nonempty, supports.nonempty'⟩

/-- Both emitters may declare a variable of the same name. -/
theorem declare (name : String) (kind kind' : Option Scalar) :
    (emitter.declare name kind).Supports (emitter'.declare name kind') where
  frame.owner := supports.frame.owner
  frame.locals other known := by
    refine Locals.isSome_lookup_declare supports.nonempty' kind' ?_
    by_cases same : other = name
    · exact .inl same
    · refine .inr (supports.frame.locals other ?_)
      obtain ⟨scope, outer, scopes⟩ := exists_cons_of_ne_nil supports.nonempty
      simpa [Emitter.declare, Locals.declare, Locals.lookup, scopes, findSome?_cons,
        lookup_cons, beq_false_of_ne same] using known
  nonempty := (Grows.declare supports.nonempty name kind).nonempty
  nonempty' := (Grows.declare supports.nonempty' name kind').nonempty

end Emitter.Supports

/-! ## Statements that are left -/

section Leaves

variable {exit? exit?' : Option Label} {emitter emitter' : Emitter}

namespace Stmt

section Replaced

variable {stmt : Stmt} {rest rest' : List Stmt} {final : Emitter}
  (supports : emitter.Supports emitter') (lowers : BlockLowers exit? emitter (stmt :: rest) final)
  (undeclared : stmt.declared? = none)
  (tail : ∀ {middle middle'}, BlockLowers exit? middle rest final → middle.Supports middle' →
    ∃ final', BlockLowers exit?' middle' rest' final')

include supports lowers undeclared tail

/-- A statement is left in the place of another, neither of which declares anything, and so is the
rest of the block. -/
theorem exists_blockLowers_cons {stmt' : Stmt} (undeclared' : stmt'.declared? = none)
    (head : ∀ {middle}, stmt.Lowers exit? emitter middle →
      ∃ middle', stmt'.Lowers exit?' emitter' middle') :
    ∃ final', BlockLowers exit?' emitter' (stmt' :: rest') final' := by
  obtain ⟨middle, first, later⟩ := blockLowers_cons.mp lowers
  obtain ⟨middle', first'⟩ := head first
  have same := first.sameScopes undeclared supports.nonempty
  have same' := first'.sameScopes undeclared' supports.nonempty'
  obtain ⟨final', later'⟩ := tail later ((supports.left same).right same')
  exact ⟨final', blockLowers_cons.mpr ⟨middle', first', later'⟩⟩

/-- Statements are left in the place of one that declares nothing. Their variables are added to the
scope around it. -/
theorem exists_blockLowers_append {hoisted : List Stmt}
    (head : ∀ {middle}, stmt.Lowers exit? emitter middle →
      ∃ middle', BlockLowers exit?' emitter' hoisted middle') :
    ∃ final', BlockLowers exit?' emitter' (hoisted ++ rest') final' := by
  obtain ⟨middle, first, later⟩ := blockLowers_cons.mp lowers
  obtain ⟨middle', first'⟩ := head first
  have same := first.sameScopes undeclared supports.nonempty
  have grown := (supports.left same).grows (first'.grows supports.nonempty')
  obtain ⟨final', later'⟩ := tail later grown
  exact ⟨final', first'.append later'⟩

end Replaced

/-- What is left of statements with code has code. -/
theorem Leaves.exists_blockLowers {block block' : List Stmt} (leaves : Leaves fold block block')
    {final : Emitter} (lowers : BlockLowers exit? emitter block final)
    (supports : emitter.Supports emitter') (exits : exit?.isSome = true → exit?'.isSome = true) :
    ∃ final', BlockLowers exit?' emitter' block' final' := by
  induction leaves generalizing exit? exit?' emitter emitter' final with
  | stop => exact ⟨emitter', [], rfl⟩
  | drop undeclared _ later =>
    obtain ⟨middle, first, rest⟩ := blockLowers_cons.mp lowers
    have same := first.sameScopes undeclared supports.nonempty
    exact later rest (supports.left same) exits
  | @taken test body body' alternative _ rest rest' _ _ inner later =>
    refine exists_blockLowers_append supports lowers rfl (later · · exits) fun first => ?_
    obtain ⟨within, taken⟩ : ∃ within,
        BlockLowers exit? emitter.takeLabels.enter body within := by
      cases alternative with
      | none =>
        obtain ⟨-, within, taken, -⟩ := lowers_branch.mp first
        exact ⟨within, taken⟩
      | some alternative =>
        obtain ⟨-, within, taken, -⟩ := lowers_alternative.mp first
        exact ⟨within, taken⟩
    have enters : emitter.takeLabels.enter.Supports emitter' :=
      ⟨supports.enter.frame, supports.enter.nonempty, supports.nonempty'⟩
    exact inner taken enters exits
  | otherwise _ _ inner later =>
    refine exists_blockLowers_append supports lowers rfl (later · · exits) fun first => ?_
    obtain ⟨-, within, taken, last, otherwise, -⟩ := lowers_alternative.mp first
    have back := (taken.sameScopes supports.nonempty).of_takeLabels
    exact inner otherwise (supports.left back).enter exits
  | declare _ later =>
    obtain ⟨middle, first, rest⟩ := blockLowers_cons.mp lowers
    obtain ⟨initial, rfl⟩ := lowers_declare.mp first
    obtain ⟨final', rest'⟩ := later rest (supports.declare _ _ _) exits
    refine ⟨final', blockLowers_cons.mpr ⟨_, ?_, rest'⟩⟩
    exact lowers_declare.mpr ⟨initial.fold supports.frame, rfl⟩
  | assign _ later =>
    refine exists_blockLowers_cons supports lowers rfl (later · · exits) rfl fun first => ?_
    obtain ⟨⟨name, types, place, target, stored⟩, evaluated, -⟩ := lowers_assign.mp first
    exact ⟨_, lowers_assign.mpr ⟨⟨name, types, place, target,
      supports.frame.isSome_storage? stored⟩, evaluated.fold supports.frame, rfl⟩⟩
  | branch _ _ inner later =>
    refine exists_blockLowers_cons supports lowers rfl (later · · exits) rfl fun first => ?_
    obtain ⟨tested, within, taken, -⟩ := lowers_branch.mp first
    obtain ⟨within', taken'⟩ := inner taken supports.takeLabels.enter_both exits
    exact ⟨_, lowers_branch.mpr ⟨tested.fold supports.frame, within', taken', rfl⟩⟩
  | alternative _ _ _ inner other later =>
    refine exists_blockLowers_cons supports lowers rfl (later · · exits) rfl fun first => ?_
    obtain ⟨tested, within, taken, last, otherwise, -⟩ := lowers_alternative.mp first
    have back := (taken.sameScopes supports.nonempty).of_takeLabels
    obtain ⟨within', taken'⟩ := inner taken supports.takeLabels.enter_both exits
    have back' := (taken'.sameScopes supports.nonempty').of_takeLabels
    obtain ⟨last', otherwise'⟩ :=
      other otherwise ((supports.left back).right back').enter_both exits
    exact ⟨_, lowers_alternative.mpr
      ⟨tested.fold supports.frame, within', taken', last', otherwise', rfl⟩⟩
  | loop _ _ inner later =>
    refine exists_blockLowers_cons supports lowers rfl (later · · exits) rfl fun first => ?_
    obtain ⟨tested, within, repeated, -⟩ := lowers_loop.mp first
    have exits' : ∀ label : Option Label, label.isSome = true →
        (some (Label.numbered (emitter'.nextLabel + 1))).isSome = true := fun _ _ => rfl
    obtain ⟨within', repeated'⟩ := inner repeated supports.takeLabels.enter_both (exits' _)
    exact ⟨_, lowers_loop.mpr ⟨tested.fold supports.frame, within', repeated', rfl⟩⟩
  | ret _ later =>
    refine exists_blockLowers_cons supports lowers rfl (later · · exits) rfl fun first => ?_
    obtain ⟨evaluated, -⟩ := lowers_ret.mp first
    exact ⟨_, lowers_ret.mpr ⟨evaluated.fold supports.frame, rfl⟩⟩
  | leave _ later =>
    refine exists_blockLowers_cons supports lowers rfl (later · · exits) rfl fun first => ?_
    obtain ⟨inLoop, -⟩ := lowers_leave.mp first
    exact ⟨_, lowers_leave.mpr ⟨exits inLoop, rfl⟩⟩
  | eval _ later =>
    refine exists_blockLowers_cons supports lowers rfl (later · · exits) rfl fun first => ?_
    obtain ⟨evaluated, -⟩ := lowers_eval.mp first
    exact ⟨_, lowers_eval.mpr ⟨evaluated.fold supports.frame, rfl⟩⟩

end Stmt

end Leaves

/-! ## Classes -/

section Classes

variable {program : Program} {decl : ClassDecl}

/-- Where a method of a simplified class starts, names have the storage that they had. -/
theorem Emitter.supports_ofParams (program : Program) (decl : ClassDecl) (params : List Param)
    (low low' : Nat) : (Emitter.ofParams program decl params low).Supports
      (Emitter.ofParams program.simplify decl.simplify params low') where
  frame.owner name := congrFun (program.owner?_simplify decl) name
  frame.locals _ known := known
  nonempty := (Locals.Reached.start _).allocated.nonempty
  nonempty' := (Locals.Reached.start _).allocated.nonempty

/-- The statements of a simplified method have code if those of the method have. -/
theorem Stmt.exists_lowerBlock_simplify {params : List Param} {block : List Stmt} {low : Nat}
    {code : List Instruction} {final : Emitter}
    (lowered : lowerBlock none (Emitter.ofParams program decl params low) block =
      .ok (code, final)) (low' : Nat) :
    ∃ code' final', lowerBlock none
      (Emitter.ofParams program.simplify decl.simplify params low') (simplifyBlock block) =
        .ok (code', final') := by
  have supports := Emitter.supports_ofParams program decl params low low'
  obtain ⟨final', code', lowered'⟩ :=
    (leaves_simplifyBlock block).exists_blockLowers ⟨code, lowered⟩ supports id
  exact ⟨code', final', lowered'⟩

/-- Fields have code if their initial values have. -/
theorem Frame.exists_fieldsCode_iff {frame : Frame} {fields : List Field} :
    (∃ code, frame.fieldsCode fields = .ok code) ↔ ∀ field ∈ fields, field.init.Lowers frame := by
  induction fields with
  | nil => exact ⟨fun _ => nofun, fun _ => ⟨[], rfl⟩⟩
  | cons field rest ih =>
    rw [forall_mem_cons, ← ih]
    constructor
    · rintro ⟨code, lowered⟩
      obtain ⟨init, initial, lowered⟩ := exists_ok_of_bind lowered
      obtain ⟨restCode, later, -⟩ := exists_ok_of_bind lowered
      exact ⟨⟨init, initial⟩, restCode, later⟩
    · rintro ⟨⟨init, initial⟩, restCode, later⟩
      exact ⟨_, ok_of_bind initial (ok_of_bind later rfl)⟩

/-- The method that sets up an object of a simplified class has code. -/
theorem ClassDecl.InitLowersTo.exists_lowerInit {code : MethodCode}
    (lowers : decl.InitLowersTo program code) (low' : Nat) :
    ∃ code' high', decl.simplify.lowerInit program.simplify low' = .ok (code', high') := by
  obtain ⟨low, fields, body, final, initial, statements, -⟩ := lowers.exists_body
  have supports := Emitter.supports_ofParams program decl [] low low'
  have initials : ∀ field ∈ decl.simplify.fields,
      field.init.Lowers (Emitter.ofParams program.simplify decl.simplify [] low').frame := by
    rw [fields_simplify, forall_mem_map]
    intro field mem
    exact (exists_fieldsCode_iff.mp ⟨fields, initial⟩ field mem).fold supports.frame
  obtain ⟨fields', initial'⟩ := exists_fieldsCode_iff.mpr initials
  obtain ⟨body', final', statements'⟩ := exists_lowerBlock_simplify statements low'
  exact ⟨_, _, ok_of_bind initial' (ok_of_bind statements' rfl)⟩

/-- Simplification keeps the methods of a class, with simplified bodies. -/
theorem ClassDecl.methods_simplify (decl : ClassDecl) :
    decl.simplify.methods =
      decl.methods.map fun method => { method with body := simplifyBlock method.body } := by
  unfold methods simplify
  rw [filterMap_map, map_filterMap]
  refine filterMap_congr fun member _ => ?_
  cases member <;> rfl

/-- A simplified method has code if the method has. -/
theorem Method.LowersTo.exists_lower {method : Method} {code : MethodCode}
    (lowers : method.LowersTo program decl code) (low' : Nat) :
    ∃ code' high', Method.lower program.simplify decl.simplify
      { method with body := simplifyBlock method.body } low' = .ok (code', high') := by
  obtain ⟨low, body, final, statements, -⟩ := lowers.exists_body
  obtain ⟨body', final', statements'⟩ := exists_lowerBlock_simplify statements low'
  exact ⟨_, _, ok_of_bind statements' rfl⟩

/-- A simplified class has code if the class has. -/
theorem ClassDecl.LowersTo.exists_lower {code : ClassCode} (lowers : decl.LowersTo program code)
    (low' : Nat) :
    ∃ code' high', decl.simplify.lower program.simplify low' = .ok (code', high') := by
  obtain ⟨init, methods, first, later, -⟩ := lowers.exists_methods
  obtain ⟨init', middle', first'⟩ := first.exists_lowerInit low'
  have all : ∀ method ∈ decl.simplify.methods, ∀ low',
      ∃ code high, method.lower program.simplify decl.simplify low' = .ok (code, high) := by
    rw [methods_simplify, forall_mem_map]
    intro method mem low'
    obtain ⟨code, -, lowers⟩ := exists_of_forall₂ later mem
    exact lowers.exists_lower low'
  obtain ⟨methods', high', later'⟩ := exists_lowerMethods all middle'
  exact ⟨_, _, ok_of_bind first' (ok_of_bind later' rfl)⟩

theorem ClassDecl.interface_simplify (decl : ClassDecl) :
    decl.simplify.interface = decl.interface := by
  rw [interface, fields_simplify, methods_simplify, map_map, map_map]
  rfl

end Classes

/-! ## Programs -/

namespace Program

/-- The first class with an entry method is the same after simplification. -/
theorem entryClass?_simplify (program : Program) :
    program.simplify.entryClass? = program.entryClass?.map ClassDecl.simplify := by
  have entry (decl : ClassDecl) : (decl.simplify.method? entryMethodName).isSome =
      (decl.method? entryMethodName).isSome := by
    rw [method?, methods_simplify, find?_map, Option.isSome_map]
    rfl
  unfold entryClass?
  rw [Program.simplify, find?_map]
  congr 2
  funext decl
  exact entry decl

/-- A program that has code has code when it is simplified, which starts at the same method and shows
the same classes with the same methods. -/
theorem lower_simplify {program : Program} {artifact : Artifact}
    (lowered : program.lower = .ok artifact) :
    ∃ simplified, program.simplify.lower = .ok simplified ∧
      simplified.entry = artifact.entry ∧
      simplified.classes.map ClassCode.interface = artifact.classes.map ClassCode.interface := by
  obtain ⟨codes, classes, rfl⟩ := exists_classes_of_lower lowered
  have all : ∀ decl ∈ program.simplify.classes, ∀ low,
      ∃ code high, decl.lower program.simplify low = .ok (code, high) := by
    refine forall_mem_map.mpr fun decl mem low => ?_
    obtain ⟨code, -, lowers⟩ := exists_of_forall₂ classes mem
    exact lowers.exists_lower low
  obtain ⟨codes', classes'⟩ := exists_lowerClasses all 0
  have shown : codes'.map ClassCode.interface = codes.map ClassCode.interface := by
    rw [interfaces_eq (forall₂_lowerClasses classes'), interfaces_eq classes, Program.simplify,
      map_map]
    exact map_congr_left fun decl _ => decl.interface_simplify
  refine ⟨_, lower_eq_ok_iff.mpr ⟨codes', classes', rfl⟩, ?_⟩
  rw [artifactOf, artifactOf, entryClass?_simplify]
  cases program.entryClass? with
  | some decl => exact ⟨rfl, shown⟩
  | none =>
    refine ⟨rfl, ?_⟩
    rw [Option.map_none, map_append, map_append, shown]

end Program

/-- A class with a field whose initial value is computed. Its method has a loop that is left from a
branch, always taken, in which a variable hides the field, and more statements after a return. -/
def decidedBranch : Program :=
  let here : Position := ⟨1, 1⟩
  let name (text : String) : Expr := .ident text [] here
  let write (text : String) : Stmt := .eval (.call (name "write") [name text] here) here
  let test : Expr := .binary .lt (.int "1" here) (.int "2" here) here
  let taken : List Stmt := [.declare "x" (.int "5" here) here, write "x", .leave here]
  let body : List Stmt :=
    [.loop (name "go") [.branch test taken none here, write "x"] here, .ret (name "x") here,
      .declare "y" (name "x") here, write "y"]
  ⟨[⟨"A", none, [], [.field ⟨"x", .binary .div (.real "0.1" here) (.int "3" here) here, here⟩,
    .method ⟨"main", [⟨"go", ⟨"Boolean", [], here⟩, here⟩], some ⟨"Real", [], here⟩, body, here⟩],
    here⟩]⟩

/-- This program has code, and the simplified one starts at the same method and shows the same. -/
theorem Program.lower_simplify_decidedBranch :
    ∃ artifact simplified, decidedBranch.lower = .ok artifact ∧
      decidedBranch.simplify.lower = .ok simplified ∧ simplified.entry = artifact.entry ∧
      simplified.classes.map ClassCode.interface = artifact.classes.map ClassCode.interface := by
  have lowers : ∃ artifact, decidedBranch.lower = .ok artifact := ⟨_, rfl⟩
  obtain ⟨artifact, lowered⟩ := lowers
  obtain ⟨simplified, lowered', same⟩ := Program.lower_simplify lowered
  exact ⟨artifact, simplified, lowered, lowered', same⟩

end ClassLang
