import ClassLang.Proofs.Lowering.Slots
import ClassLang.Proofs.Machine.Labels

/-! # Shape of code

`Expr.Emits` and `Stmt.Emits` say what the code of expressions and statements is made of, one clause
for each kind of them. What lowering does to slots, scopes and labels is derived from these by
induction. -/

namespace ClassLang

open List Instruction

variable {code test : List Instruction} {frame : Frame} {expr : Expr}

/-- A computation in two steps succeeds if both do. -/
theorem exists_ok_of_bind {ε α β : Type} {first : Except ε α} {next : α → Except ε β} {result : β}
    (success : first >>= next = .ok result) :
    ∃ value, first = .ok value ∧ next value = .ok result := by
  cases first with
  | error fault => cases success
  | ok value => exact ⟨value, rfl, success⟩

/-! ## Expressions -/

/-- What the code of an expression is made of. -/
inductive Expr.Emits (frame : Frame) : Expr → List Instruction → Prop
  | literal {expr constant} (known : Constant.ofExpr? expr = some constant) :
      Emits frame expr [.const constant]
  | self {position} : Emits frame (.self position) [.loadThis]
  | slot {name types position found} (looked : frame.locals.lookup name = some found) :
      Emits frame (.ident name types position) [.loadLocal found.slot]
  | field {name owner types position}
      (looked : frame.locals.lookup name = none) (owned : frame.owner? name = some owner) :
      Emits frame (.ident name types position) (loadFieldCode owner name)
  | member {name owner position position'} (owned : frame.owner? name = some owner) :
      Emits frame (.member (.self position) name position') (loadFieldCode owner name)
  | binary {op left right position leftCode rightCode}
      (first : Emits frame left leftCode) (second : Emits frame right rightCode) :
      Emits frame (.binary op left right position)
        (leftCode ++ widenFirst op.isArithmetic (frame.kindOf left) (frame.kindOf right) ++
          rightCode ++ widenSecond op.isArithmetic (frame.kindOf left) (frame.kindOf right) ++
          op.code)
  | write {argument types position position' code} (operand : Emits frame argument code) :
      Emits frame (.call (.ident writeRoutine types position) [argument] position')
        (code ++ [Instruction.call writeRoutine 1])
  | convert {name type argument types position position' code} (notWrite : ¬name = writeRoutine)
      (scalar : (BuiltinType.ofName? name).filter BuiltinType.isScalar = some type)
      (operand : Emits frame argument code) :
      Emits frame (.call (.ident name types position) [argument] position')
        (code ++ conversion type (frame.kindOf argument))
  | unary {name operation receiver position position' code}
      (found : operationFor? name 0 = some operation)
      (operand : Emits frame receiver code) :
      Emits frame (.call (.member receiver name position) [] position') (code ++ operation.code)
  | pair {name operation receiver argument position position' receiverCode argumentCode}
      (found : operationFor? name 1 = some operation)
      (first : Emits frame receiver receiverCode) (second : Emits frame argument argumentCode) :
      Emits frame (.call (.member receiver name position) [argument] position')
        (receiverCode ++
          widenFirst operation.isArithmetic (frame.kindOf receiver) (frame.kindOf argument) ++
          argumentCode ++
          widenSecond operation.isArithmetic (frame.kindOf receiver) (frame.kindOf argument) ++
          operation.code)

/-- The code that loads a name has the shape of the code of the name. -/
theorem Frame.emits_loadName {name : String} {position : Position} (types : List TypeRef)
    (lowered : frame.loadName name position = .ok code) :
    Expr.Emits frame (.ident name types position) code := by
  unfold loadName storage? at lowered
  cases looked : frame.locals.lookup name with
  | some found =>
    rw [looked] at lowered
    cases lowered
    exact .slot looked
  | none =>
    rw [looked] at lowered
    cases owned : frame.owner? name with
    | none => simp [owned] at lowered
    | some owner =>
      rw [owned] at lowered
      cases lowered
      exact .field looked owned

/-- The code of a literal has the shape of the code of an expression. -/
theorem Expr.emits_literalCode {text : String} {position : Position}
    (lowered : literalCode (Constant.ofExpr? expr) text position = .ok code) :
    Expr.Emits frame expr code := by
  unfold literalCode at lowered
  cases known : Constant.ofExpr? expr with
  | none =>
    rw [known] at lowered
    cases lowered
  | some constant =>
    rw [known] at lowered
    cases lowered
    exact .literal known

/-- The code of an expression has the shape of the code of an expression. -/
theorem Expr.emits_lower (lowered : expr.lower frame = .ok code) : Expr.Emits frame expr code := by
  revert lowered
  fun_induction Expr.lower frame expr generalizing code with
  | case1 text | case2 text =>
    intro lowered
    exact Expr.emits_literalCode lowered
  | case3 value =>
    rintro ⟨⟩
    exact .literal rfl
  | case4 =>
    rintro ⟨⟩
    exact .self
  | case5 name types =>
    intro lowered
    exact Frame.emits_loadName types lowered
  | case6 op left right _ leftKind rightKind leftIh =>
    rename_i rightIh
    intro lowered
    obtain ⟨leftCode, leftLowered, lowered⟩ := exists_ok_of_bind lowered
    obtain ⟨rightCode, rightLowered, result⟩ := exists_ok_of_bind lowered
    cases result
    exact .binary (leftIh leftLowered) (rightIh rightLowered)
  | case7 target name =>
    intro lowered
    unfold Frame.memberCode at lowered
    split at lowered
    · next _ owner owned =>
        cases lowered
        exact .member owned
    · cases lowered
  | case8 types _ argument _ ih =>
    intro lowered
    obtain ⟨argumentCode, argumentLowered, result⟩ := exists_ok_of_bind lowered
    cases result
    exact .write (ih argumentLowered)
  | case9 name types _ argument _ notWrite type scalar ih =>
    intro lowered
    obtain ⟨argumentCode, argumentLowered, result⟩ := exists_ok_of_bind lowered
    cases result
    exact .convert notWrite scalar (ih argumentLowered)
  | case12 receiver name _ _ operation found ih =>
    intro lowered
    obtain ⟨receiverCode, receiverLowered, result⟩ := exists_ok_of_bind lowered
    cases result
    exact .unary found (ih receiverLowered)
  | case14 receiver name position argument position' operation found receiverKind argumentKind
      receiverIh =>
    rename_i argumentIh
    intro lowered
    obtain ⟨receiverCode, receiverLowered, lowered⟩ := exists_ok_of_bind lowered
    obtain ⟨argumentCode, argumentLowered, result⟩ := exists_ok_of_bind lowered
    cases result
    exact .pair found (receiverIh receiverLowered) (argumentIh argumentLowered)
  | case10 | case11 | case13 | case15 | case16 | case17 =>
    intro lowered
    cases lowered

/-! ## Straight code -/

/-- Whether an instruction is neither a place that jumps go to nor goes elsewhere than on to the next
instruction. -/
def Instruction.isStraight : Instruction → Bool
  | .label _ | .jump _ | .jumpIfFalse _ | .ret => false
  | _ => true

theorem straight_widenIf (condition : Prop) [Decidable condition] :
    (if condition then [.widen] else []).all isStraight = true := by
  split <;> rfl

theorem straight_conversion (type : BuiltinType) (kind : Option Scalar) :
    (conversion type kind).all isStraight = true := by
  unfold conversion
  split <;> rfl

theorem BinaryOp.straight_code (op : BinaryOp) : op.code.all isStraight = true := by
  cases op <;> rfl

theorem Operation.straight_code (operation : Operation) : operation.code.all isStraight = true := by
  cases operation <;> rfl

/-- The code of an expression is straight. -/
theorem Expr.Emits.straight (emits : Expr.Emits frame expr code) : code.all isStraight = true := by
  induction emits with
  | literal | self | slot | field | member => rfl
  | binary _ _ first second =>
    simp only [all_append, first, second, widenFirst, widenSecond, straight_widenIf,
      BinaryOp.straight_code, Bool.and_true]
  | write _ operand =>
    rw [all_append, operand]
    rfl
  | convert _ _ _ operand => rw [all_append, operand, straight_conversion, Bool.and_true]
  | unary _ _ operand => rw [all_append, operand, Operation.straight_code, Bool.and_true]
  | pair _ _ _ first second =>
    simp only [all_append, first, second, widenFirst, widenSecond, straight_widenIf,
      Operation.straight_code, Bool.and_true]

theorem Expr.straight_lower (lowered : expr.lower frame = .ok code) : code.all isStraight = true :=
  (Expr.emits_lower lowered).straight

/-- The code of an assignment is straight. -/
theorem Frame.straight_assignCode {target value : Expr}
    (lowered : frame.assignCode target value = .ok code) : code.all isStraight = true := by
  unfold assignCode at lowered
  split at lowered
  · obtain ⟨valueCode, evaluated, lowered⟩ := exists_ok_of_bind lowered
    have straight := Expr.straight_lower evaluated
    split at lowered <;> cases lowered <;> simp [straight, isStraight]
  · cases lowered

/-- The code of an expression evaluated for its effect is straight. -/
theorem straight_evalCode {value : Expr} (straight : code.all isStraight = true) :
    (evalCode value code).all isStraight = true := by
  unfold evalCode
  split
  · exact straight
  · rw [all_append, straight]
    rfl

/-! ## Statements -/

namespace Stmt

/-- What the code of statements is made of, and how lowering them changes the emitter. A single
statement is treated as a block of one. -/
inductive Emits : Option Label → Emitter → List Stmt → List Instruction → Emitter → Prop
  | nothing {exit? emitter} : Emits exit? emitter [] [] emitter
  | sequence {exit? emitter middle final stmt rest code restCode}
      (first : Emits exit? emitter [stmt] code middle)
      (second : Emits exit? middle rest restCode final) :
      Emits exit? emitter (stmt :: rest) (code ++ restCode) final
  | declare {exit? emitter name init position code} (lowered : init.lower emitter.frame = .ok code) :
      Emits exit? emitter [.declare name init position]
        (code ++ [Instruction.storeLocal emitter.frame.locals.nextSlot])
        (emitter.declare name (emitter.frame.kindOf init))
  | assign {exit? emitter target value position code}
      (lowered : emitter.frame.assignCode target value = .ok code) :
      Emits exit? emitter [.assign target value position] code emitter
  | branch {exit? emitter inner test body position testCode bodyCode}
      (lowered : test.lower emitter.frame = .ok testCode)
      (taken : Emits exit? emitter.takeLabels.enter body bodyCode inner) :
      Emits exit? emitter [.branch test body none position]
        (branchCode (.numbered emitter.nextLabel) (.numbered (emitter.nextLabel + 1)) testCode
          bodyCode []) inner.exit
  | alternative {exit? emitter inner last test body alternative position testCode bodyCode alternativeCode}
      (lowered : test.lower emitter.frame = .ok testCode)
      (taken : Emits exit? emitter.takeLabels.enter body bodyCode inner)
      (otherwise : Emits exit? inner.exit.enter alternative alternativeCode last) :
      Emits exit? emitter [.branch test body (some alternative) position]
        (branchCode (.numbered emitter.nextLabel) (.numbered (emitter.nextLabel + 1)) testCode
          bodyCode alternativeCode) last.exit
  | loop {exit? emitter inner test body position testCode bodyCode}
      (lowered : test.lower emitter.frame = .ok testCode)
      (repeated : Emits (some (.numbered (emitter.nextLabel + 1))) emitter.takeLabels.enter body
        bodyCode inner) :
      Emits exit? emitter [.loop test body position]
        (loopCode (.numbered emitter.nextLabel) (.numbered (emitter.nextLabel + 1)) testCode
          bodyCode) inner.exit
  | ret {exit? emitter value position code} (lowered : value.lower emitter.frame = .ok code) :
      Emits exit? emitter [.ret value position] (code ++ [Instruction.ret]) emitter
  | leave {endLabel emitter position} :
      Emits (some endLabel) emitter [.leave position] [.jump endLabel] emitter
  | eval {exit? emitter value position code} (lowered : value.lower emitter.frame = .ok code) :
      Emits exit? emitter [.eval value position] (evalCode value code) emitter

mutual

/-- The code of a statement has the shape of the code of a block of one. -/
theorem emits_lower {exit? : Option Label} {emitter final : Emitter} {code : List Instruction} :
    (stmt : Stmt) → stmt.lower exit? emitter = .ok (code, final) →
      Emits exit? emitter [stmt] code final
  | .declare name init position, lowered => by
    rw [lower] at lowered
    obtain ⟨initCode, init, result⟩ := exists_ok_of_bind lowered
    cases result
    exact .declare init
  | .assign target value position, lowered => by
    rw [lower] at lowered
    obtain ⟨assignCode, assigned, result⟩ := exists_ok_of_bind lowered
    cases result
    exact .assign assigned
  | .branch test body none position, lowered => by
    rw [lower] at lowered
    obtain ⟨testCode, tested, lowered⟩ := exists_ok_of_bind lowered
    obtain ⟨⟨bodyCode, inner⟩, taken, result⟩ := exists_ok_of_bind lowered
    cases result
    exact .branch tested (emits_lowerBlock body taken)
  | .branch test body (some alternative) position, lowered => by
    rw [lower] at lowered
    obtain ⟨testCode, tested, lowered⟩ := exists_ok_of_bind lowered
    obtain ⟨⟨bodyCode, inner⟩, taken, lowered⟩ := exists_ok_of_bind lowered
    obtain ⟨⟨alternativeCode, last⟩, otherwise, result⟩ := exists_ok_of_bind lowered
    cases result
    exact .alternative tested (emits_lowerBlock body taken) (emits_lowerBlock alternative otherwise)
  | .loop test body position, lowered => by
    rw [lower] at lowered
    obtain ⟨testCode, tested, lowered⟩ := exists_ok_of_bind lowered
    obtain ⟨⟨bodyCode, inner⟩, repeated, result⟩ := exists_ok_of_bind lowered
    cases result
    exact .loop tested (emits_lowerBlock body repeated)
  | .ret value position, lowered => by
    rw [lower] at lowered
    obtain ⟨valueCode, evaluated, result⟩ := exists_ok_of_bind lowered
    cases result
    exact .ret evaluated
  | .leave position, lowered => by
    cases exit? with
    | none => cases lowered
    | some endLabel =>
      cases lowered
      exact .leave
  | .eval value position, lowered => by
    rw [lower] at lowered
    obtain ⟨valueCode, evaluated, result⟩ := exists_ok_of_bind lowered
    cases result
    exact .eval evaluated

theorem emits_lowerBlock {exit? : Option Label} {emitter final : Emitter} {code : List Instruction} :
    (block : List Stmt) → lowerBlock exit? emitter block = .ok (code, final) →
      Emits exit? emitter block code final
  | [], lowered => by
    cases lowered
    exact .nothing
  | stmt :: rest, lowered => by
    rw [lowerBlock] at lowered
    obtain ⟨⟨stmtCode, middle⟩, first, lowered⟩ := exists_ok_of_bind lowered
    obtain ⟨⟨restCode, last⟩, second, result⟩ := exists_ok_of_bind lowered
    cases result
    exact .sequence (emits_lower stmt first) (emits_lowerBlock rest second)

end

end Stmt

/-! ## Scopes and slots -/

/-- What lowering statements does to the emitter: more slots and labels are given out, and variables
are added to the innermost scope. -/
structure Emitter.Grows (emitter final : Emitter) : Prop where
  program : final.frame.program = emitter.frame.program
  decl : final.frame.decl = emitter.frame.decl
  /-- Variables are added to the innermost scope. -/
  scopes : emitter.frame.locals.Adds final.frame.locals
  /-- Slots are given out. -/
  nextSlot : emitter.frame.locals.nextSlot ≤ final.frame.locals.nextSlot

namespace Emitter.Grows

variable {emitter middle final : Emitter}

theorem refl (nonempty : emitter.frame.locals.scopes ≠ []) : emitter.Grows emitter :=
  ⟨rfl, rfl, .refl nonempty, Nat.le_refl _⟩

/-- Lowering in turn. -/
theorem trans (first : emitter.Grows middle) (second : middle.Grows final) :
    emitter.Grows final := by
  obtain ⟨new, scope, outer, before, between⟩ := first.scopes
  obtain ⟨newer, scope', outer', between', after⟩ := second.scopes
  obtain ⟨rfl, rfl⟩ : new ++ scope = scope' ∧ outer = outer' := by
    rw [between] at between'
    exact List.cons.inj between'
  refine ⟨second.program.trans first.program, second.decl.trans first.decl, ?_,
    Nat.le_trans first.nextSlot second.nextSlot⟩
  exact ⟨newer ++ new, scope, outer, before, by rw [after, append_assoc]⟩

theorem nonempty (grows : emitter.Grows final) : final.frame.locals.scopes ≠ [] := by
  obtain ⟨new, scope, outer, _, after⟩ := grows.scopes
  rw [after]
  exact cons_ne_nil _ _

/-- After a block, the scopes are those before it. -/
theorem exit_scopes (grows : emitter.enter.Grows final)
    (nonempty : emitter.frame.locals.scopes ≠ []) :
    final.exit.frame.locals.scopes = emitter.frame.locals.scopes := by
  obtain ⟨new, scope, outer, before, after⟩ := grows.scopes
  obtain ⟨rfl, rfl⟩ : [] = scope ∧ emitter.frame.locals.scopes = outer := List.cons.inj before
  obtain ⟨scope, outer, scopes⟩ := exists_cons_of_ne_nil nonempty
  rw [scopes] at after ⊢
  simp [Emitter.exit, Locals.exit, after]

/-- A block adds no variable to the scope around it. -/
theorem block (grows : emitter.enter.Grows final)
    (nonempty : emitter.frame.locals.scopes ≠ []) : emitter.Grows final.exit := by
  obtain ⟨scope, outer, scopes⟩ := exists_cons_of_ne_nil nonempty
  refine ⟨grows.program, grows.decl, ⟨[], scope, outer, scopes, ?_⟩, ?_⟩
  · rw [grows.exit_scopes nonempty, scopes]
    rfl
  · have same : final.exit.frame.locals.nextSlot = final.frame.locals.nextSlot := by
      unfold Emitter.exit Locals.exit
      dsimp only
      split <;> rfl
    rw [same]
    exact grows.nextSlot

theorem of_takeLabels (grows : emitter.takeLabels.Grows final) : emitter.Grows final :=
  ⟨grows.program, grows.decl, grows.scopes, grows.nextSlot⟩

theorem declare (nonempty : emitter.frame.locals.scopes ≠ []) (name : String)
    (kind : Option Scalar) : emitter.Grows (emitter.declare name kind) := by
  refine ⟨rfl, rfl, .declare nonempty name kind, ?_⟩
  rw [Emitter.declare, Locals.nextSlot_declare]
  exact Nat.le_succ _

end Emitter.Grows

section Emits

variable {exit? : Option Label} {emitter final : Emitter} {block : List Stmt}
  {code : List Instruction}

/-- Lowering adds variables to the innermost scope. -/
theorem Stmt.Emits.grows (emits : Stmt.Emits exit? emitter block code final)
    (nonempty : emitter.frame.locals.scopes ≠ []) : emitter.Grows final := by
  induction emits with
  | nothing | assign | ret | leave | eval => exact .refl nonempty
  | sequence _ _ first second =>
    have grows := first nonempty
    exact grows.trans (second grows.nonempty)
  | declare => exact .declare nonempty _ _
  | branch _ _ taken => exact ((taken (cons_ne_nil _ _)).block nonempty).of_takeLabels
  | alternative _ _ _ taken otherwise =>
    have grows := ((taken (cons_ne_nil _ _)).block nonempty).of_takeLabels
    exact grows.trans ((otherwise (cons_ne_nil _ _)).block grows.nonempty)
  | loop _ _ repeated => exact ((repeated (cons_ne_nil _ _)).block nonempty).of_takeLabels

/-- Lowering keeps the slots of visible variables apart. -/
theorem Stmt.Emits.allocated (emits : Stmt.Emits exit? emitter block code final)
    (allocated : emitter.frame.locals.Allocated) : final.frame.locals.Allocated := by
  induction emits with
  | nothing | assign | ret | leave | eval => exact allocated
  | sequence _ _ first second => exact second (first allocated)
  | declare => exact allocated.declare _ _
  | branch _ _ taken => exact (taken allocated.enter).exit
  | alternative _ _ _ taken otherwise => exact (otherwise (taken allocated.enter).exit.enter).exit
  | loop _ _ repeated => exact (repeated allocated.enter).exit

end Emits

/-! ## Labels -/

/-- The labels that stand in code have different numbers, all from a range. -/
def Numbered (low high : Nat) (code : List Instruction) : Prop :=
  ∃ numbers : List Nat, (labelsIn code).Perm (numbers.map Label.numbered) ∧ numbers.Nodup ∧
    ∀ number ∈ numbers, low ≤ number ∧ number < high

namespace Numbered

variable {low middle high : Nat} {code first second : List Instruction}

theorem of_labelsIn_eq_nil (none : labelsIn code = []) : Numbered low high code :=
  ⟨[], by rw [none]; exact .refl _, nodup_nil, by simp⟩

theorem pair (number : Nat) : Numbered number (number + 2)
    [.label (.numbered number), .label (.numbered (number + 1))] :=
  ⟨[number, number + 1], .refl _, by simp, by simp⟩

theorem perm (numbered : Numbered low high first)
    (same : (labelsIn second).Perm (labelsIn first)) : Numbered low high second := by
  obtain ⟨numbers, labels, distinct, range⟩ := numbered
  exact ⟨numbers, same.trans labels, distinct, range⟩

/-- Code with labels from two ranges, one above the other. -/
theorem append (below : Numbered low middle first) (above : Numbered middle high second)
    (grown : low ≤ middle) (grown' : middle ≤ high) : Numbered low high (first ++ second) := by
  obtain ⟨numbers, labels, distinct, range⟩ := below
  obtain ⟨numbers', labels', distinct', range'⟩ := above
  refine ⟨numbers ++ numbers', ?_, ?_, ?_⟩
  · rw [labelsIn_append, map_append]
    exact labels.append labels'
  · refine nodup_append.mpr ⟨distinct, distinct', fun number member number' member' same => ?_⟩
    have lower := range number member
    have upper := range' number' member'
    omega
  · intro number member
    rcases mem_append.mp member with member | member
    · have lower := range number member
      omega
    · have upper := range' number member
      omega

theorem distinct (numbered : Numbered low high code) : (labelsIn code).Nodup := by
  obtain ⟨numbers, labels, distinct, _⟩ := numbered
  exact labels.nodup_iff.mpr (distinct.map Label.numbered_injective)

/-- Numbered labels have a number from the range. -/
theorem exists_number (numbered : Numbered low high code) {label : Label}
    (member : label ∈ labelsIn code) : ∃ number, low ≤ number ∧ number < high ∧
      label = .numbered number := by
  obtain ⟨numbers, labels, _, range⟩ := numbered
  obtain ⟨number, inside, rfl⟩ := mem_map.mp (labels.mem_iff.mp member)
  exact ⟨number, (range number inside).1, (range number inside).2, rfl⟩

end Numbered

theorem labelsIn_of_straight (straight : code.all isStraight = true) : labelsIn code = [] := by
  refine filterMap_eq_nil_iff.mpr fun instruction member => ?_
  have stays := all_eq_true.mp straight instruction member
  cases instruction <;> first | rfl | cases stays

section Straight

variable (straight : test.all isStraight = true)

include straight

variable (first second : Label)

/-- The labels of a branch: those of its parts and its own two. -/
theorem labelsIn_branchCode (body alternative : List Instruction) :
    labelsIn (branchCode first second test body alternative) =
      labelsIn body ++ first :: (labelsIn alternative ++ [second]) := by
  simp only [branchCode, labelsIn_append, labelsIn_of_straight straight]
  change labelsIn body ++ [first] ++ labelsIn alternative ++ [second] = _
  rw [append_assoc, append_assoc, singleton_append]

/-- The labels of a loop: those of its parts and its own two. -/
theorem labelsIn_loopCode (body : List Instruction) :
    labelsIn (loopCode first second test body) = first :: (labelsIn body ++ [second]) := by
  simp only [loopCode, labelsIn_append, labelsIn_of_straight straight]
  rfl

/-- The labels of a branch in another order. -/
theorem perm_labelsIn_branchCode (body alternative : List Instruction) :
    (labelsIn (branchCode first second test body alternative)).Perm
      (labelsIn ([.label first, .label second] ++ (body ++ alternative))) := by
  rw [labelsIn_branchCode straight, labelsIn_append, labelsIn_append]
  refine perm_middle.trans (.cons first ?_)
  rw [← append_assoc]
  exact perm_append_singleton _ _

/-- The labels of a loop in another order. -/
theorem perm_labelsIn_loopCode (body : List Instruction) :
    (labelsIn (loopCode first second test body)).Perm
      (labelsIn ([.label first, .label second] ++ body)) := by
  rw [labelsIn_loopCode straight, labelsIn_append]
  exact .cons first (perm_append_singleton _ _)

end Straight

section Labels

variable {exit? : Option Label} {emitter final : Emitter} {block : List Stmt}
  {code : List Instruction}

variable (emits : Stmt.Emits exit? emitter block code final)

include emits

/-- Lowering takes labels in the order of their numbers. -/
theorem Stmt.Emits.nextLabel_le : emitter.nextLabel ≤ final.nextLabel := by
  induction emits with
  | nothing | assign | declare | ret | leave | eval => exact Nat.le_refl _
  | sequence _ _ first second => exact Nat.le_trans first second
  | branch _ _ taken => exact Nat.le_trans (Nat.le_add_right _ 2) taken
  | alternative _ _ _ taken otherwise =>
    exact Nat.le_trans (Nat.le_trans (Nat.le_add_right _ 2) taken) otherwise
  | loop _ _ repeated => exact Nat.le_trans (Nat.le_add_right _ 2) repeated

/-- The labels in the code of statements are those that lowering them took. -/
theorem Stmt.Emits.numbered : Numbered emitter.nextLabel final.nextLabel code := by
  induction emits with
  | nothing | leave => exact .of_labelsIn_eq_nil rfl
  | assign lowered =>
    exact .of_labelsIn_eq_nil (labelsIn_of_straight (Frame.straight_assignCode lowered))
  | declare lowered | ret lowered =>
    refine .of_labelsIn_eq_nil ?_
    rw [labelsIn_append, labelsIn_of_straight (Expr.straight_lower lowered)]
    rfl
  | eval lowered =>
    refine .of_labelsIn_eq_nil (labelsIn_of_straight ?_)
    exact straight_evalCode (Expr.straight_lower lowered)
  | sequence before after first second =>
    exact first.append second before.nextLabel_le after.nextLabel_le
  | branch lowered taken ih =>
    have both := (Numbered.pair _).append ih (Nat.le_add_right _ 2) taken.nextLabel_le
    refine both.perm ?_
    have labels := perm_labelsIn_branchCode (Expr.straight_lower lowered)
    simpa only [append_nil] using labels _ _ _ []
  | alternative lowered taken otherwise ih ih' =>
    have inner := ih.append ih' taken.nextLabel_le otherwise.nextLabel_le
    have grown := Nat.le_trans taken.nextLabel_le otherwise.nextLabel_le
    have all := (Numbered.pair _).append inner (Nat.le_add_right _ 2) grown
    exact all.perm (perm_labelsIn_branchCode (Expr.straight_lower lowered) _ _ _ _)
  | loop lowered repeated ih =>
    have both := (Numbered.pair _).append ih (Nat.le_add_right _ 2) repeated.nextLabel_le
    exact both.perm (perm_labelsIn_loopCode (Expr.straight_lower lowered) _ _ _)

end Labels

end ClassLang
