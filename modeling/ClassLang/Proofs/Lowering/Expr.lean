import ClassLang.Proofs.Lowering.Shape
import ClassLang.Proofs.Machine.Steps
import ClassLang.Proofs.Scopes

/-! # Code of expressions

The code of an expression that writes nothing out computes its value: it pushes the value that
structured execution gives the expression, and traps where that traps. -/

namespace ClassLang

open ClassLang.Expr Evaluation

variable {V S α : Type} {operation : Operation} {world : World V S}

/-- A computation succeeds if its first step does and the rest does after it. -/
theorem ok_of_bind {ε β : Type} {first : Except ε α} {next : α → Except ε β} {value : α}
    {result : β} (success : first = .ok value) (later : next value = .ok result) :
    first >>= next = .ok result := by
  rw [success]
  exact later

/-! ## Kinds of expressions -/

/-- The setting of statements in a frame, when the machine has given primitives. -/
def Primitives.settingOf (primitives : Primitives V S) (frame : Frame) : Setting V S :=
  ⟨primitives.operators, frame.program, frame.decl⟩

/-- Lowering and execution agree on the kinds of expressions. -/
theorem Holds.kindOf {frame : Frame} {environment : Environment V} {slots : Nat → Option V}
    (holds : Holds slots frame.locals environment) (primitives : Primitives V S) (expr : Expr) :
    ((primitives.settingOf frame).frame environment).kindOf expr = frame.kindOf expr := by
  refine Frame.kindOf_congr (Frame.kindOfName_congr ?_ ?_ fun name => ?_) expr
  · rfl
  · rfl
  change (environment.kinds.lookup name).map Local.info = _
  rw [environment.lookup_kinds]
  have related := holds.lookup name
  generalize frame.locals.lookup name = found at related ⊢
  generalize environment.lookup name = typed at related ⊢
  cases related with
  | none => rfl
  | some same => exact congrArg some same.1.symm

/-! ## Operators and operations -/

section Operators

variable {primitives : Primitives V S} {whole : List Instruction} {start : Configuration V S}
  {value first second : V} {rest : List V}

open Primitives

/-- Negation compares with zero. -/
theorem yields_negation (placed : Placed whole start.counter negation)
    (stack : start.stack = value :: rest) :
    primitives.Yields whole start (start.counter + negation.length) rest
      (primitives.negate value) := by
  refine (yields_const placed.head).bind fun zero _ => ?_
  refine yields_binary rfl (placed.tail rfl).head ?_
  rw [Configuration.goto_stack, stack]

/-- An instruction on two values whose result is negated. -/
theorem yields_negated {instruction : Instruction} (binary : isBinary instruction = true)
    (placed : Placed whole start.counter (instruction :: negation))
    (stack : start.stack = second :: first :: rest) :
    primitives.Yields whole start (start.counter + (instruction :: negation).length) rest
      ((primitives.binary instruction first second).bind primitives.negate) :=
  (yields_binary binary placed.head stack).bind fun _ _ => yields_negation (placed.tail rfl) rfl

/-- The code of an operator applies it. -/
theorem yields_binaryOp (op : BinaryOp) (placed : Placed whole start.counter op.code)
    (stack : start.stack = second :: first :: rest) :
    primitives.Yields whole start (start.counter + op.code.length) rest
      (primitives.applyBinary first second op) := by
  cases op with
  | add | sub | mul | div | gt | lt | eq => exact yields_binary rfl placed.head stack
  | ge | le | ne => exact yields_negated rfl placed stack

/-- The code of an operation with an argument applies it. -/
theorem yields_pair (arity : operation.arity = 1)
    (placed : Placed whole start.counter operation.code)
    (stack : start.stack = second :: first :: rest) :
    primitives.Yields whole start (start.counter + operation.code.length) rest
      (primitives.applyPair first second operation) := by
  cases operation with
  | plus | minus | mult | div | rem | equal | greater | less | and | or | xor =>
    exact yields_binary rfl placed.head stack
  | greaterEqual | lessEqual => exact yields_negated rfl placed stack
  | not | toInteger | toReal | toBoolean => cases arity

/-- The code of an operation without an argument applies it. -/
theorem yields_unary (arity : operation.arity = 0)
    (placed : Placed whole start.counter operation.code) (stack : start.stack = value :: rest) :
    primitives.Yields whole start (start.counter + operation.code.length) rest
      (primitives.applyUnary value operation) := by
  cases operation with
  | not => exact yields_negation placed stack
  | toInteger => exact yields_narrow placed.head stack
  | toReal => exact yields_widen placed.head stack
  | toBoolean =>
    exact (yields_negation placed.left stack).bind fun _ _ =>
      yields_negation (placed.right rfl) rfl
  | _ => cases arity

/-- Without code, a value on the stack stays there. -/
theorem yields_nothing (stack : start.stack = value :: rest) :
    primitives.Yields whole start start.counter rest (some value) := by
  have stays : start.goto start.counter (value :: rest) = start := by
    rw [← stack]
    rfl
  change primitives.Runs whole start (start.goto start.counter (value :: rest))
  rw [stays]
  exact .refl

/-- Code that turns a value into a double under a condition. -/
theorem yields_widenIf {condition : Prop} [Decidable condition]
    (placed : Placed whole start.counter (if condition then [.widen] else []))
    (stack : start.stack = value :: rest) :
    primitives.Yields whole start
      (start.counter + (if condition then [Instruction.widen] else []).length) rest
      (if condition then primitives.widen value else some value) := by
  by_cases holds : condition
  · rw [if_pos holds] at placed
    rw [if_pos holds, if_pos holds]
    exact yields_widen placed.head stack
  · rw [if_neg holds, if_neg holds]
    exact yields_nothing stack

/-- The code of a conversion converts. -/
theorem yields_conversion {type : BuiltinType} {kind : Option Scalar}
    (placed : Placed whole start.counter (conversion type kind))
    (stack : start.stack = value :: rest) :
    primitives.Yields whole start (start.counter + (conversion type kind).length) rest
      (primitives.convert type ⟨kind, value⟩) := by
  unfold conversion at placed ⊢
  split at placed
  · exact yields_widen placed.head stack
  · exact yields_narrow placed.head stack
  · next notReal notInteger =>
      have unchanged : primitives.convert type ⟨kind, value⟩ = some value := by
        unfold convert
        split <;> simp_all
      rw [unchanged]
      exact yields_nothing stack

/-- The kinds of two operands are matched one operand at a time. -/
theorem matchKinds_eq (primitives : Primitives V S) (arithmetic : Bool) (left right : Typed V) :
    primitives.matchKinds arithmetic left right =
      (if arithmetic ∧ left.kind = some .int ∧ right.kind = some .real then
          primitives.widen left.value else some left.value).bind fun first =>
        (if arithmetic ∧ left.kind = some .real ∧ right.kind = some .int then
          primitives.widen right.value else some right.value).bind fun second =>
        some (first, second) := by
  unfold matchKinds
  split
  · simp_all
  · simp_all
  · next notFirst notSecond =>
      rw [if_neg fun mixed => notFirst mixed.1 mixed.2.1 mixed.2.2,
        if_neg fun mixed => notSecond mixed.1 mixed.2.1 mixed.2.2]
      rfl

end Operators

/-! ## Expressions -/

mutual

/-- Whether an expression writes nothing out. -/
def Expr.writeFree : Expr → Bool
  | .binary _ left right _ => left.writeFree && right.writeFree
  | .member target _ _ => target.writeFree
  | .call callee arguments position =>
    !(call callee arguments position).isWrite && callee.writeFree && writeFreeList arguments
  | _ => true

/-- Whether expressions write nothing out. -/
def Expr.writeFreeList : List Expr → Bool
  | [] => true
  | expr :: rest => expr.writeFree && writeFreeList rest

end

/-- Code computes what an evaluation gives: wherever it is placed, it pushes the value or traps. -/
def Primitives.Computes (primitives : Primitives V S) (whole : List Instruction)
    (slots : Nat → Option V) (world : World V S) (code : List Instruction)
    (evaluation : Evaluation V S V) : Prop :=
  ∃ value?, evaluation world = Evaluation.ofOption value? world ∧
    ∀ start : Configuration V S, start.slots = slots → start.world = world →
      Placed whole start.counter code →
      primitives.Yields whole start (start.counter + code.length) start.stack value?

/-- An evaluation that changes nothing can be followed by another. -/
theorem Evaluation.bind_ofOption {β : Type} {first : Evaluation V S α} {next : α → Evaluation V S β}
    {value? : Option α} {use : α → Option β} (evaluated : first world = ofOption value? world)
    (follow : ∀ value, next value world = ofOption (use value) world) :
    (first >>= next) world = ofOption (value?.bind use) world := by
  change EStateM.bind first next world = _
  cases value? with
  | none =>
    rw [EStateM.bind, evaluated]
    rfl
  | some value =>
    rw [EStateM.bind, evaluated]
    exact follow value

/-- A missing value is no result. -/
theorem Evaluation.ofOption_eq_ok {value? : Option α} {value : α} {after : World V S}
    (result : ofOption value? world = .ok value after) : value? = some value ∧ after = world := by
  cases value? with
  | none => cases result
  | some _ =>
    cases result
    exact ⟨rfl, rfl⟩

/-- A value is a result. -/
theorem Evaluation.ofOption_eq_error {value? : Option α} {after : World V S}
    (result : ofOption value? world = .error () after) : value? = none ∧ after = world := by
  cases value? with
  | none =>
    cases result
    exact ⟨rfl, rfl⟩
  | some _ => cases result

/-- An action that leaves the world as it is. -/
theorem Evaluation.ofAction_eq {action : World V S → Option (α × World V S)} {value? : Option α}
    (acts : action world = value?.map (·, world)) :
    ofAction action world = ofOption value? world := by
  unfold ofAction
  rw [acts]
  cases value? <;> rfl

section Computes

variable {primitives : Primitives V S} {whole code more : List Instruction} {slots : Nat → Option V}
  {world : World V S} {evaluation : Evaluation V S V}

open Primitives

/-- Code that computes a value can be followed by code that uses it. -/
theorem Primitives.Computes.follow {next : V → Evaluation V S V} {use : V → Option V}
    (computes : primitives.Computes whole slots world code evaluation)
    (evaluated : ∀ value, next value world = ofOption (use value) world)
    (yields : ∀ (start : Configuration V S) (value : V) (rest : List V),
      start.stack = value :: rest → start.world = world → Placed whole start.counter more →
      primitives.Yields whole start (start.counter + more.length) rest (use value)) :
    primitives.Computes whole slots world (code ++ more) (evaluation >>= next) := by
  obtain ⟨value?, first, pushes⟩ := computes
  refine ⟨value?.bind use, bind_ofOption first evaluated, ?_⟩
  intro start sameSlots sameWorld placed
  rw [List.length_append, ← Nat.add_assoc]
  refine (pushes start sameSlots sameWorld placed.left).bind fun value _ => ?_
  exact yields _ value start.stack rfl sameWorld (placed.right rfl)

/-- The code of two operands and of what is done with them, with the kinds of the operands
matched. -/
theorem computes_operands {arithmetic : Bool} {leftKind rightKind : Option Scalar}
    {leftCode rightCode opCode : List Instruction} {left right : Evaluation V S V}
    {next : V → V → Evaluation V S V} {apply : V → V → Option V}
    (leftComputes : primitives.Computes whole slots world leftCode left)
    (rightComputes : primitives.Computes whole slots world rightCode right)
    (evaluated : ∀ first second, next first second world = ofOption
      ((primitives.matchKinds arithmetic ⟨leftKind, first⟩ ⟨rightKind, second⟩).bind
        fun operands => apply operands.1 operands.2) world)
    (yields : ∀ (start : Configuration V S) (first second : V) (rest : List V),
      start.stack = second :: first :: rest → Placed whole start.counter opCode →
      primitives.Yields whole start (start.counter + opCode.length) rest (apply first second)) :
    primitives.Computes whole slots world
      (leftCode ++ widenFirst arithmetic leftKind rightKind ++ rightCode ++
        widenSecond arithmetic leftKind rightKind ++ opCode)
      (left >>= fun first => right >>= fun second => next first second) := by
  obtain ⟨left?, leftValue, leftYields⟩ := leftComputes
  obtain ⟨right?, rightValue, rightYields⟩ := rightComputes
  refine ⟨_, bind_ofOption leftValue fun first =>
    bind_ofOption rightValue fun second => evaluated first second, ?_⟩
  intro start sameSlots sameWorld placed
  have reordered : (left?.bind fun first => right?.bind fun second =>
      (primitives.matchKinds arithmetic ⟨leftKind, first⟩ ⟨rightKind, second⟩).bind
        fun operands => apply operands.1 operands.2) =
      left?.bind fun first =>
        (if arithmetic ∧ leftKind = some .int ∧ rightKind = some .real then
          primitives.widen first else some first).bind fun first' =>
        right?.bind fun second =>
        (if arithmetic ∧ leftKind = some .real ∧ rightKind = some .int then
          primitives.widen second else some second).bind fun second' => apply first' second' := by
    simp only [matchKinds_eq]
    cases left? with
    | none => rfl
    | some first =>
      cases right? with
      | none => simp
      | some second => simp [Option.bind_assoc]
  simp only [List.append_assoc] at placed
  simp only [List.length_append, ← Nat.add_assoc]
  rw [reordered]
  -- The first operand is widened before the second is evaluated.
  refine (leftYields start sameSlots sameWorld placed.left).bind fun first _ => ?_
  refine (yields_widenIf (placed.right rfl).left rfl).bind fun first' _ => ?_
  have behind := (placed.right rfl).right rfl
  refine (rightYields (start.goto (start.counter + leftCode.length + _) (first' :: start.stack))
    sameSlots sameWorld behind.left).bind fun second _ => ?_
  refine (yields_widenIf (behind.right rfl).left rfl).bind fun second' _ => ?_
  exact yields _ first' second' start.stack rfl ((behind.right rfl).right rfl)

/-- The code that loads a field of the current object. -/
theorem computes_loadField (owner name : String) (evaluated : evaluation world = ofOption
      (primitives.readField owner name primitives.self world.store) world) :
    primitives.Computes whole slots world (loadFieldCode owner name) evaluation := by
  refine ⟨_, evaluated, ?_⟩
  intro start _ sameWorld placed
  subst sameWorld
  change primitives.Yields _ _ _ _ ((some primitives.self).bind fun object =>
    primitives.readField owner name object start.world.store)
  refine (yields_loadThis placed.head).bind fun object _ => ?_
  exact yields_loadField (placed.tail rfl).head rfl

/-- A literal is pushed. -/
theorem computes_literal {frame : Frame} {literal : Expr} {constant : Constant}
    (known : Constant.ofExpr? literal = some constant) :
    primitives.Computes whole slots world [.const constant]
      ((primitives.settingOf frame).literal literal) := by
  refine ⟨primitives.constant constant, ?_, fun start _ _ placed => yields_const placed.head⟩
  rw [Setting.literal, known]
  rfl

variable {frame : Frame} {environment : Environment V}

/-- The code that loads a name computes the value of the name, whether it is a variable or a field. -/
theorem computes_slot (holds : Holds slots frame.locals environment) {name : String}
    {found : Local (Option Scalar)} (looked : frame.locals.lookup name = some found) :
    primitives.Computes whole slots world [.loadLocal found.slot]
      ((primitives.settingOf frame).readName environment name) := by
  unfold Setting.readName
  have related := holds.lookup name
  rw [looked] at related
  generalize environment.lookup name = typed at related ⊢
  cases related with
  | @some _ typed same =>
    refine ⟨some typed.value, rfl, ?_⟩
    rintro start rfl _ placed
    rw [← same.2]
    exact yields_loadLocal placed.head

theorem computes_field (holds : Holds slots frame.locals environment) {name owner : String}
    (looked : frame.locals.lookup name = none) (owned : frame.owner? name = some owner) :
    primitives.Computes whole slots world (loadFieldCode owner name)
      ((primitives.settingOf frame).readName environment name) := by
  unfold Setting.readName
  have related := holds.lookup name
  rw [looked] at related
  generalize environment.lookup name = typed at related ⊢
  cases related
  refine computes_loadField owner name ?_
  change ofOption ((frame.owner? name).bind _) world = _
  rw [owned]
  rfl

/-- The values of a single expression. -/
theorem Expr.evalList_singleton (setting : Setting V S) (environment : Environment V) (expr : Expr) :
    evalList setting environment [expr] =
      expr.eval setting environment >>= fun value => pure [setting.typed environment expr value] := by
  rw [evalList, evalList]
  simp

/-- The operations that a name can stand for, with their number of arguments. -/
theorem operationFor_eq_some {name : String} {count : Nat}
    (found : operationFor? name count = some operation) :
    Operation.ofName? name = some operation ∧ operation.arity = count := by
  obtain ⟨named, arity⟩ := Option.filter_eq_some_iff.mp found
  exact ⟨named, of_decide_eq_true arity⟩

theorem Expr.eval_of_ofExpr? {setting : Setting V S} {expr : Expr} {constant : Constant}
    (known : Constant.ofExpr? expr = some constant) :
    expr.eval setting environment = setting.literal expr := by
  cases expr with
  | int | real | bool => rw [eval]
  | _ => cases known

/-- The code of an expression that writes nothing out computes its value. -/
theorem Expr.Emits.computes (holds : Holds slots frame.locals environment) {expr : Expr}
    (emits : expr.Emits frame code) (quiet : expr.writeFree = true) :
    primitives.Computes whole slots world code
      (expr.eval (primitives.settingOf frame) environment) := by
  have kind := holds.kindOf primitives
  induction emits with
  | literal known =>
    rw [eval_of_ofExpr? known]
    exact computes_literal known
  | self => exact ⟨some primitives.self, rfl, fun start _ _ placed => yields_loadThis placed.head⟩
  | slot looked => exact computes_slot holds looked
  | field looked owned => exact computes_field holds looked owned
  | @member name owner _ _ owned =>
    rw [eval]
    refine computes_loadField owner name ?_
    have owned' : (primitives.settingOf frame).owner? name = some owner := owned
    rw [Setting.readOwn, owned', Setting.readField, owned']
    rfl
  | @binary op _ _ _ _ _ _ _ left right =>
    rw [writeFree, Bool.and_eq_true] at quiet
    rw [eval]
    refine computes_operands (left quiet.1) (right quiet.2) ?_
      fun start first second rest => fun stack placed => yields_binaryOp op placed stack
    intro first second
    simp only [Setting.typed, kind]
    rfl
  | write => simp [writeFree, isWrite] at quiet
  | @convert _ _ argument _ _ _ _ notWrite scalar _ operand =>
    have quiet' : argument.writeFree = true := by
      simpa [writeFree, writeFreeList, isWrite, notWrite] using quiet
    rw [eval, evalList_singleton]
    simp only [bind_assoc, pure_bind]
    refine (operand quiet').follow (fun value => ?_) fun start value rest =>
      fun stack _ placed => yields_conversion placed stack
    simp only [Setting.callRoutine, if_neg notWrite, Setting.typed, kind]
    refine ofAction_eq ?_
    simp [settingOf, operators, scalar]
  | @unary _ _ receiver _ _ _ found _ operand =>
    obtain ⟨named, arity⟩ := operationFor_eq_some found
    have quiet' : receiver.writeFree = true := by
      simpa [writeFree, writeFreeList, isWrite] using quiet
    rw [eval]
    refine (operand quiet').follow (fun value => ?_) fun start value rest =>
      fun stack _ placed => yields_unary arity placed stack
    simp only [evalList, pure_bind]
    refine ofAction_eq ?_
    simp [settingOf, operators, named, Setting.typed]
  | @pair _ _ receiver argument _ _ _ _ found _ _ left right =>
    obtain ⟨named, arity⟩ := operationFor_eq_some found
    have quiet' : receiver.writeFree = true ∧ argument.writeFree = true := by
      simpa [writeFree, writeFreeList, isWrite] using quiet
    rw [eval, evalList_singleton]
    simp only [bind_assoc, pure_bind]
    refine computes_operands (left quiet'.1) (right quiet'.2) ?_
      fun start first second rest stack placed => yields_pair arity placed stack
    intro first second
    simp only [Setting.typed, kind]
    refine ofAction_eq ?_
    simp only [settingOf, operators, named, Option.map_eq_bind,
      Option.bind_assoc]
    rfl

end Computes

end ClassLang
