import ClassLang.Proofs.Lowering.Scoping

/-! # Values and frames

Which expressions of a program are computed when it runs, and the frame that each of them is lowered
against, as told from the text of the program. In the code of the program, the code of such an
expression is a part of the code of a method. -/

namespace ClassLang

open List Stmt

variable {frame : Frame} {code : List Instruction}

/-! ## Operands and parts -/

namespace Expr

/-- The expressions that an operation or a call takes its operands from. -/
def operands : Expr → List Expr
  | .binary _ left right _ => [left, right]
  | .call (.member receiver _ _) arguments _ => receiver :: arguments
  | .call _ arguments _ => arguments
  | _ => []

/-- An operand is smaller than the expression. -/
theorem sizeOf_lt_of_operand {operand expr : Expr} (mem : operand ∈ expr.operands) :
    sizeOf operand < sizeOf expr := by
  cases expr with
  | binary op left right =>
    rcases mem_pair.mp mem with rfl | rfl <;> rw [binary.sizeOf_spec] <;> omega
  | call callee arguments position =>
    have argument (mem : operand ∈ arguments) :
        sizeOf operand < sizeOf (call callee arguments position) := by
      have smaller := sizeOf_lt_of_mem mem
      rw [call.sizeOf_spec]
      omega
    cases callee with
    | member receiver name place =>
      rcases mem_cons.mp mem with rfl | mem
      · rw [call.sizeOf_spec, member.sizeOf_spec]
        omega
      · exact argument mem
    | _ => exact argument mem
  | _ => cases mem

/-- What holds of an expression if it holds of its operands holds of all expressions. -/
theorem operand_induction {motive : Expr → Prop}
    (step : ∀ expr : Expr, (∀ operand ∈ expr.operands, motive operand) → motive expr)
    (expr : Expr) : motive expr :=
  step expr fun operand _ => operand_induction step operand
termination_by sizeOf expr
decreasing_by exact sizeOf_lt_of_operand ‹_›

mutual

/-- The expressions that are computed when an expression is: itself and those that its operands are
made of. -/
def parts : Expr → List Expr
  | .binary op left right position =>
    .binary op left right position :: (left.parts ++ right.parts)
  | .call callee arguments position =>
    .call callee arguments position :: (callee.receiverParts ++ listParts arguments)
  | expr => [expr]

/-- The expressions that are computed for the receiver of a called member. -/
def receiverParts : Expr → List Expr
  | .member receiver _ _ => receiver.parts
  | _ => []

/-- The expressions that are computed when expressions are. -/
def listParts : List Expr → List Expr
  | [] => []
  | expr :: rest => expr.parts ++ listParts rest

end

theorem listParts_eq (exprs : List Expr) : listParts exprs = exprs.flatMap parts := by
  induction exprs with
  | nil => rfl
  | cons expr rest ih => rw [listParts, ih, flatMap_cons]

/-- An expression is computed from its operands. -/
theorem parts_eq (expr : Expr) : expr.parts = expr :: expr.operands.flatMap parts := by
  cases expr with
  | binary op left right => simp [parts, operands]
  | call callee arguments =>
    rw [parts, listParts_eq]
    cases callee <;> rfl
  | _ => rfl

/-- The names that occur in an operand occur in the expression. -/
theorem occurrences_subset_of_operand {operand expr : Expr} (mem : operand ∈ expr.operands) :
    operand.occurrences ⊆ expr.occurrences := by
  have argument {arguments : List Expr} (mem : operand ∈ arguments) :
      operand.occurrences ⊆ listOccurrences arguments := by
    induction arguments with
    | nil => cases mem
    | cons first rest ih =>
      rcases mem_cons.mp mem with rfl | mem
      · exact subset_append_left _ _
      · exact subset_append_of_subset_right _ (ih mem)
  cases expr with
  | binary op left right =>
    rcases mem_pair.mp mem with rfl | rfl
    · exact subset_append_left _ _
    · exact subset_append_right _ _
  | call callee arguments =>
    cases callee with
    | ident => exact argument mem
    | member receiver name place =>
      rcases mem_cons.mp mem with rfl | mem
      · exact subset_append_left _ _
      · exact subset_append_of_subset_right _ (argument mem)
    | _ => exact subset_append_of_subset_right _ (argument mem)
  | _ => cases mem

end Expr

/-- An expression with the frame that it is lowered against. -/
structure Framed where
  frame : Frame
  expr : Expr

namespace Framed

/-- The kind of value that the expression has, as far as it can be told. -/
def kind (framed : Framed) : Option Scalar := framed.frame.kindOf framed.expr

/-- The expressions that are computed when the expression is. -/
def parts (framed : Framed) : List Framed := framed.expr.parts.map (Framed.mk framed.frame)

/-- Whether the code of the expression is a part of other code. -/
def LoweredIn (framed : Framed) (code : List Instruction) : Prop :=
  ∃ part, framed.expr.lower framed.frame = .ok part ∧ part <:+: code

end Framed

/-! ## Frames in the text -/

namespace Frame

/-- The frame at the start of a method. -/
def ofParams (program : Program) (decl : ClassDecl) (params : List Param) : Frame :=
  { program := program
    decl := decl
    locals := .ofParams (params.map fun param => (param.name, Scalar.ofType? param.type)) }

/-- The frame at the start of a block. -/
def enter (frame : Frame) : Frame := { frame with locals := frame.locals.enter }

/-- The frame behind blocks: the slots of their variables are not given out again. -/
def skip (frame : Frame) (names : List String) : Frame :=
  { frame with locals := { frame.locals with names := frame.locals.names ++ names } }

/-- The frame behind a statement. -/
def past (frame : Frame) : Stmt → Frame
  | .declare name init _ =>
    { frame with locals := frame.locals.declare name (frame.kindOf init) }
  | stmt => frame.skip stmt.variables

/-- The frame behind statements. -/
def pastAll (frame : Frame) (block : List Stmt) : Frame := block.foldl past frame

@[simp] theorem skip_nil (frame : Frame) : frame.skip [] = frame := by
  rw [skip, append_nil]

@[simp] theorem skip_skip (frame : Frame) (first second : List String) :
    (frame.skip first).skip second = frame.skip (first ++ second) := by
  simp only [skip, append_assoc]

end Frame

namespace Stmt

mutual

/-- The expressions of a statement, each with its frame. What is assigned to is not computed. -/
def framed (frame : Frame) : Stmt → List Framed
  | .declare _ init _ => [⟨frame, init⟩]
  | .assign _ value _ => [⟨frame, value⟩]
  | .branch test body none _ => ⟨frame, test⟩ :: blockFramed frame.enter body
  | .branch test body (some alternative) _ =>
    ⟨frame, test⟩ :: (blockFramed frame.enter body ++
      blockFramed (frame.skip (blockVariables body)).enter alternative)
  | .loop test body _ => ⟨frame, test⟩ :: blockFramed frame.enter body
  | .ret value _ => [⟨frame, value⟩]
  | .leave _ => []
  | .eval value _ => [⟨frame, value⟩]

/-- The expressions of statements, each with its frame. -/
def blockFramed (frame : Frame) : List Stmt → List Framed
  | [] => []
  | stmt :: rest => stmt.framed frame ++ blockFramed (frame.past stmt) rest

end

theorem blockFramed_singleton (frame : Frame) (stmt : Stmt) :
    blockFramed frame [stmt] = stmt.framed frame :=
  append_nil _

/-- The expressions of two rows of statements. -/
theorem blockFramed_append (frame : Frame) (first second : List Stmt) :
    blockFramed frame (first ++ second) =
      blockFramed frame first ++ blockFramed (frame.pastAll first) second := by
  induction first generalizing frame with
  | nil => rfl
  | cons stmt rest ih =>
    rw [cons_append, blockFramed, blockFramed, ih, append_assoc]
    rfl

end Stmt

/-- The expressions of a class, each with its frame. -/
def ClassDecl.framed (program : Program) (decl : ClassDecl) : List Framed :=
  decl.fields.map (fun field => ⟨.ofParams program decl [], field.init⟩) ++
    Stmt.blockFramed (.ofParams program decl []) decl.init ++
    decl.methods.flatMap fun method =>
      Stmt.blockFramed (.ofParams program decl method.params) method.body

/-- The expressions of a program, each with its frame. -/
def Program.framed (program : Program) : List Framed :=
  program.classes.flatMap (ClassDecl.framed program)

/-- All that is computed in a program, each expression with its frame. -/
def Program.values (program : Program) : List Framed := program.framed.flatMap Framed.parts

/-! ## Frames in lowering -/

section Emits

variable {exit? : Option Label} {emitter final : Emitter} {block : List Stmt}
  {code : List Instruction}

/-- Behind a block that is left again, only the slots of its variables are gone. -/
theorem Stmt.Emits.frame_exit (emits : Stmt.Emits exit? emitter.enter block code final)
    (nonempty : emitter.frame.locals.scopes ≠ []) :
    final.exit.frame = emitter.frame.skip (blockVariables block) := by
  have grows := emits.grows (cons_ne_nil _ _)
  have names : final.exit.frame.locals.names = final.frame.locals.names := by
    unfold Emitter.exit Locals.exit
    dsimp only
    split <;> rfl
  have locals : final.exit.frame.locals =
      ⟨emitter.frame.locals.names ++ blockVariables block, emitter.frame.locals.scopes⟩ := by
    have scopes := grows.exit_scopes nonempty
    rw [emits.names_eq] at names
    exact congrArg₂ Locals.mk names scopes
  have program : final.exit.frame.program = emitter.frame.program := grows.program
  have decl : final.exit.frame.decl = emitter.frame.decl := grows.decl
  calc final.exit.frame
      = ⟨final.exit.frame.program, final.exit.frame.decl, final.exit.frame.locals⟩ := rfl
    _ = emitter.frame.skip (blockVariables block) := by
        rw [program, decl, locals]
        rfl

/-- The frame of lowering is the one that the text tells. -/
theorem Stmt.Emits.frame_eq (emits : Stmt.Emits exit? emitter block code final)
    (nonempty : emitter.frame.locals.scopes ≠ []) : final.frame = emitter.frame.pastAll block := by
  induction emits with
  | nothing | declare => rfl
  | assign | ret | leave | eval => exact (Frame.skip_nil _).symm
  | sequence before _ first second =>
    rw [second (before.grows nonempty).nonempty, first nonempty]
    rfl
  | branch _ taken => exact taken.frame_exit nonempty
  | loop _ repeated => exact repeated.frame_exit nonempty
  | @alternative _ emitter inner last _ body alternative _ _ _ _ _ taken otherwise =>
    have behind : inner.exit.frame = emitter.frame.skip (blockVariables body) :=
      taken.frame_exit nonempty
    have nonempty' : inner.exit.frame.locals.scopes ≠ [] := by
      rw [behind]
      exact nonempty
    rw [otherwise.frame_exit nonempty', behind, Frame.skip_skip]
    rfl

end Emits

/-! ## Code of values -/

namespace Framed

variable {framed : Framed} {part code : List Instruction}

theorem LoweredIn.of_lower (lowered : framed.expr.lower framed.frame = .ok part)
    (within : part <:+: code) : framed.LoweredIn code :=
  ⟨part, lowered, within⟩

theorem LoweredIn.mono (lowered : framed.LoweredIn part) (within : part <:+: code) :
    framed.LoweredIn code := by
  obtain ⟨own, lowered, inside⟩ := lowered
  exact ⟨own, lowered, inside.trans within⟩

end Framed

/-- The conversions that the code of an expression has behind its operands, one for each. -/
def Frame.conversions (frame : Frame) : Expr → List (List Instruction)
  | .binary op left right _ =>
    [widenFirst op.isArithmetic (frame.kindOf left) (frame.kindOf right),
      widenSecond op.isArithmetic (frame.kindOf left) (frame.kindOf right)]
  | .call (.ident name _ _) [argument] _ =>
    match (BuiltinType.ofName? name).filter BuiltinType.isScalar with
    | some type => [conversion type (frame.kindOf argument)]
    | none => [[]]
  | .call (.member _ _ _) [] _ => [[]]
  | .call (.member receiver name _) [argument] _ =>
    match operationFor? name 1 with
    | some operation =>
      [widenFirst operation.isArithmetic (frame.kindOf receiver) (frame.kindOf argument),
        widenSecond operation.isArithmetic (frame.kindOf receiver) (frame.kindOf argument)]
    | none => []
  | _ => []

/-- Whether code is that of operands, each with its conversion behind it, and something else. -/
inductive Expr.Composes (frame : Frame) :
    List Expr → List (List Instruction) → List Instruction → Prop
  | last {code : List Instruction} : Composes frame [] [] code
  | operand {expr exprs part code} (conversion : List Instruction) {conversions}
      (lowered : expr.lower frame = .ok part) (behind : Composes frame exprs conversions code) :
      Composes frame (expr :: exprs) (conversion :: conversions) (part ++ (conversion ++ code))

/-- The code of an expression is that of its operands, each with its conversion behind it, and what
is done with them. -/
theorem Expr.composes_of_lower {expr : Expr} (lowered : expr.lower frame = .ok code) :
    Expr.Composes frame expr.operands (frame.conversions expr) code := by
  revert lowered
  fun_cases Expr.lower frame expr with
  | case6 op left right _ leftKind rightKind =>
    intro lowered
    obtain ⟨leftCode, leftLowered, lowered⟩ := exists_ok_of_bind lowered
    obtain ⟨rightCode, rightLowered, result⟩ := exists_ok_of_bind lowered
    cases result
    simp only [append_assoc]
    exact .operand _ leftLowered (.operand _ rightLowered .last)
  | case8 types _ argument =>
    intro lowered
    obtain ⟨argumentCode, argumentLowered, result⟩ := exists_ok_of_bind lowered
    cases result
    exact .operand [] argumentLowered .last
  | case9 name types _ argument _ notWrite type scalar =>
    intro lowered
    obtain ⟨argumentCode, argumentLowered, result⟩ := exists_ok_of_bind lowered
    cases result
    rw [Frame.conversions, scalar, ← append_nil (conversion type (frame.kindOf argument))]
    exact .operand _ argumentLowered .last
  | case12 receiver name _ _ operation found =>
    intro lowered
    obtain ⟨receiverCode, receiverLowered, result⟩ := exists_ok_of_bind lowered
    cases result
    exact .operand [] receiverLowered .last
  | case14 receiver name _ argument _ operation found receiverKind argumentKind =>
    intro lowered
    obtain ⟨receiverCode, receiverLowered, lowered⟩ := exists_ok_of_bind lowered
    obtain ⟨argumentCode, argumentLowered, result⟩ := exists_ok_of_bind lowered
    cases result
    rw [Frame.conversions, found]
    simp only [append_assoc]
    exact .operand _ receiverLowered (.operand _ argumentLowered .last)
  | case1 | case2 | case3 | case4 | case5 | case7 => exact fun _ => .last
  | case10 | case11 | case13 | case15 | case16 | case17 => exact fun lowered => nomatch lowered

/-- In the code of operands is the code of each. -/
theorem Expr.Composes.loweredIn {exprs : List Expr} {conversions : List (List Instruction)}
    (composed : Expr.Composes frame exprs conversions code) {expr : Expr} (mem : expr ∈ exprs) :
    Framed.LoweredIn ⟨frame, expr⟩ code := by
  induction composed with
  | last => cases mem
  | operand conversion lowered behind ih =>
    rcases mem_cons.mp mem with rfl | later
    · exact .of_lower lowered (prefix_append _ _).isInfix
    · exact (ih later).mono ((suffix_append _ _).trans (suffix_append _ _)).isInfix

/-- In the code of an expression is the code of all that is computed for it. -/
theorem Framed.LoweredIn.of_parts {framed value : Framed} (lowered : framed.LoweredIn code)
    (mem : value ∈ framed.parts) : value.LoweredIn code := by
  obtain ⟨frame, expr⟩ := framed
  obtain ⟨part, computed, rfl⟩ := mem_map.mp mem
  clear mem
  induction expr using Expr.operand_induction generalizing code with
  | step expr ih =>
    rw [Expr.parts_eq] at computed
    rcases mem_cons.mp computed with rfl | inside
    · exact lowered
    · obtain ⟨operand, isOperand, inside⟩ := mem_flatMap.mp inside
      obtain ⟨own, lowered, within⟩ := lowered
      have operandLowered := (Expr.composes_of_lower lowered).loweredIn isOperand
      exact (ih operand isOperand operandLowered inside).mono within

section Emits

variable {exit? : Option Label} {emitter final : Emitter} {block : List Stmt}
  {code : List Instruction}

/-- In the code of an assignment is the code of the value. -/
theorem Frame.loweredIn_assignCode {target value : Expr}
    (lowered : frame.assignCode target value = .ok code) :
    Framed.LoweredIn ⟨frame, value⟩ code := by
  unfold assignCode at lowered
  split at lowered
  · obtain ⟨valueCode, evaluated, lowered⟩ := exists_ok_of_bind lowered
    split at lowered
    · cases lowered
      exact .of_lower evaluated (prefix_append _ _).isInfix
    · cases lowered
      exact .of_lower evaluated ⟨[.loadThis], _, rfl⟩
    · cases lowered
  · cases lowered

/-- In the code of an expression evaluated for its effect is the code of the expression. -/
theorem code_within_evalCode (value : Expr) (code : List Instruction) :
    code <:+: evalCode value code := by
  unfold evalCode
  split
  · exact infix_rfl
  · exact (prefix_append _ _).isInfix

/-- In the code of a branch is the code of its test and of its blocks. -/
theorem parts_within_branchCode (alternativeLabel endLabel : Label)
    (test body alternative : List Instruction) :
    test <:+: branchCode alternativeLabel endLabel test body alternative ∧
      body <:+: branchCode alternativeLabel endLabel test body alternative ∧
      alternative <:+: branchCode alternativeLabel endLabel test body alternative := by
  unfold branchCode
  refine ⟨?_, ?_, infix_append _ _ _⟩
  · simp only [append_assoc]
    exact (prefix_append _ _).isInfix
  · exact (infix_append _ _ _).trans ((prefix_append _ _).trans (prefix_append _ _)).isInfix

/-- In the code of a loop is the code of its test and of its block. -/
theorem parts_within_loopCode (startLabel endLabel : Label) (test body : List Instruction) :
    test <:+: loopCode startLabel endLabel test body ∧
      body <:+: loopCode startLabel endLabel test body := by
  unfold loopCode
  refine ⟨?_, infix_append _ _ _⟩
  exact (infix_append _ _ _).trans ((prefix_append _ _).trans (prefix_append _ _)).isInfix

/-- In the code of statements is the code of all their expressions. -/
theorem Stmt.Emits.loweredIn (emits : Stmt.Emits exit? emitter block code final)
    (nonempty : emitter.frame.locals.scopes ≠ []) {framed : Framed}
    (mem : framed ∈ blockFramed emitter.frame block) : framed.LoweredIn code := by
  induction emits with
  | nothing => cases mem
  | sequence before after first second =>
    rcases mem_append.mp mem with inFirst | inSecond
    · rw [← blockFramed_singleton] at inFirst
      exact (first nonempty inFirst).mono (prefix_append _ _).isInfix
    · have frame := before.frame_eq nonempty
      have open' := (before.grows nonempty).nonempty
      refine (second open' ?_).mono (suffix_append _ _).isInfix
      rw [frame]
      exact inSecond
  | declare lowered | ret lowered =>
    obtain rfl := mem_singleton.mp mem
    exact .of_lower lowered (prefix_append _ _).isInfix
  | assign lowered =>
    obtain rfl := mem_singleton.mp mem
    exact Frame.loweredIn_assignCode lowered
  | leave => cases mem
  | eval lowered =>
    obtain rfl := mem_singleton.mp mem
    exact .of_lower lowered (code_within_evalCode _ _)
  | branch lowered taken ih =>
    rw [blockFramed_singleton] at mem
    have parts := parts_within_branchCode
    rcases mem_cons.mp mem with rfl | inBody
    · exact .of_lower lowered (parts ..).1
    · exact (ih (cons_ne_nil _ _) inBody).mono (parts ..).2.1
  | @alternative _ emitter inner _ _ body alternative _ _ _ _ lowered taken otherwise ih ih' =>
    rw [blockFramed_singleton] at mem
    have parts := parts_within_branchCode
    rcases mem_cons.mp mem with rfl | inBlocks
    · exact .of_lower lowered (parts ..).1
    · rcases mem_append.mp inBlocks with inBody | inAlternative
      · exact (ih (cons_ne_nil _ _) inBody).mono (parts ..).2.1
      · refine (ih' (cons_ne_nil _ _) ?_).mono (parts ..).2.2
        have behind : inner.exit.frame = emitter.frame.skip (blockVariables body) :=
          taken.frame_exit nonempty
        change framed ∈ blockFramed inner.exit.frame.enter alternative
        rw [behind]
        exact inAlternative
  | loop lowered repeated ih =>
    rw [blockFramed_singleton] at mem
    have parts := parts_within_loopCode
    rcases mem_cons.mp mem with rfl | inBody
    · exact .of_lower lowered (parts ..).1
    · exact (ih (cons_ne_nil _ _) inBody).mono (parts ..).2

end Emits

/-- In the code that sets fields is the code of their initial values. -/
theorem Frame.loweredIn_fieldsCode {fields : List Field}
    (lowered : frame.fieldsCode fields = .ok code) {field : Field} (mem : field ∈ fields) :
    Framed.LoweredIn ⟨frame, field.init⟩ code := by
  induction fields generalizing code with
  | nil => cases mem
  | cons first rest ih =>
    obtain ⟨init, initial, lowered⟩ := exists_ok_of_bind lowered
    obtain ⟨restCode, later, result⟩ := exists_ok_of_bind lowered
    cases result
    rcases mem_cons.mp mem with rfl | inRest
    · refine .of_lower initial
        ⟨[.loadThis], .storeField frame.decl.name field.name :: restCode, ?_⟩
      simp
    · exact (ih later inRest).mono (suffix_append _ _).isInfix

section Programs

variable {program : Program} {decl : ClassDecl} {framed : Framed}

/-- In the code of a method is the code of its expressions. -/
theorem Method.LowersTo.loweredIn {method : Method} {code : MethodCode}
    (lowers : method.LowersTo program decl code)
    (mem : framed ∈ blockFramed (.ofParams program decl method.params) method.body) :
    framed.LoweredIn code.code := by
  obtain ⟨low, body, final, lowered, rfl⟩ := lowers.exists_body
  obtain ⟨closing, closed, -⟩ := closeCode_cases method.result body
  have emits := emits_lowerBlock _ lowered
  have within := emits.loweredIn (Locals.Reached.start _).allocated.nonempty mem
  rw [closed]
  exact within.mono (prefix_append _ _).isInfix

/-- In the code that sets up a new object is the code of initial values and of statements. -/
theorem ClassDecl.InitLowersTo.loweredIn {code : MethodCode}
    (lowers : decl.InitLowersTo program code)
    (mem : framed ∈ decl.fields.map (fun field => ⟨.ofParams program decl [], field.init⟩) ++
      blockFramed (.ofParams program decl []) decl.init) : framed.LoweredIn code.code := by
  obtain ⟨low, fields, body, final, initial, lowered, rfl⟩ := lowers.exists_body
  rcases mem_append.mp mem with inFields | inBody
  · obtain ⟨field, inside, rfl⟩ := mem_map.mp inFields
    refine (Frame.loweredIn_fieldsCode initial inside).mono ?_
    rw [append_assoc]
    exact (prefix_append _ _).isInfix
  · have emits := emits_lowerBlock _ lowered
    exact (emits.loweredIn (cons_ne_nil _ _) inBody).mono ⟨fields, [.ret], rfl⟩

/-- In the code of a class is the code of its expressions. -/
theorem ClassDecl.LowersTo.exists_loweredIn {code : ClassCode} (lowers : decl.LowersTo program code)
    (mem : framed ∈ decl.framed program) :
    ∃ method ∈ code.methods, framed.LoweredIn method.code := by
  obtain ⟨init, methods, first, later, rfl⟩ := lowers.exists_methods
  rcases mem_append.mp mem with inInit | inMethods
  · exact ⟨init, mem_cons_self, first.loweredIn inInit⟩
  · obtain ⟨method, declared, inMethod⟩ := mem_flatMap.mp inMethods
    obtain ⟨code, among, lowers⟩ := exists_of_forall₂ later declared
    exact ⟨code, mem_cons_of_mem _ among, Method.LowersTo.loweredIn lowers inMethod⟩

/-- Whether the code of an expression, made of that of its operands and their conversions, is a part
of the code of a method. -/
def Framed.LoweredFor (framed : Framed) (artifact : Artifact) : Prop :=
  ∃ decl ∈ artifact.classes, ∃ method ∈ decl.methods, ∃ code,
    framed.expr.lower framed.frame = .ok code ∧ code <:+: method.code ∧
      Expr.Composes framed.frame framed.expr.operands (framed.frame.conversions framed.expr) code

/-- In the code of a program is the code of all that is computed in it, lowered against the frame
that the text tells. -/
theorem Program.loweredFor_values {artifact : Artifact} (lowered : program.lower = .ok artifact)
    (mem : framed ∈ program.values) : framed.LoweredFor artifact := by
  obtain ⟨codes, classes, rfl⟩ := Program.exists_classes_of_lower lowered
  obtain ⟨whole, inProgram, part⟩ := mem_flatMap.mp mem
  obtain ⟨decl, declared, inClass⟩ := mem_flatMap.mp inProgram
  obtain ⟨code, among, lowers⟩ := exists_of_forall₂ classes declared
  obtain ⟨method, inside, within⟩ := ClassDecl.LowersTo.exists_loweredIn lowers inClass
  obtain ⟨own, lowered, within⟩ := within.of_parts part
  refine ⟨code, ?_, method, inside, own, lowered, within, Expr.composes_of_lower lowered⟩
  unfold Program.artifactOf
  split
  · exact among
  · exact mem_append_left _ among

end Programs

end ClassLang
