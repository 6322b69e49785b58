import ClassLang.Constant
import ClassLang.Lowering.Frame

/-! # Structured execution

What it means to run statements, said on the syntax tree alone. Values, objects and the results of
operators are left open: `Operators` gives them any meaning, which may trap. A name means the
innermost variable of that name in an open scope, or else the nearest field in the chain of bases.
Operands are evaluated from left to right.

Evaluation of an expression is a function; the meaning of a statement is a relation between the state
before it, how it completes and the state after it, so that a loop that runs forever relates its
state to nothing. -/

namespace ClassLang

/-! ## Values and their operators -/

/-- A value, and the kind known of the expression that it came from. -/
structure Typed (V : Type) where
  /-- The kind known of the expression. -/
  kind : Option Scalar
  value : V

/-- What statements act on beside variables. -/
structure World (V S : Type) where
  /-- The fields of all objects. -/
  store : S
  /-- The values written out so far. -/
  written : List V

/-- A meaning for literals, operators, calls and fields. Where there is no result, execution traps. -/
structure Operators (V S : Type) where
  /-- The value of a literal. -/
  constant : Constant → Option V
  /-- The current object. -/
  self : V
  /-- Whether a value counts as true in a test. -/
  truth : V → Option Bool
  /-- The result of a binary operator. -/
  binary : BinaryOp → Typed V → Typed V → Option V
  /-- A call of a named routine other than the one that writes a value out. -/
  routine : String → List (Typed V) → World V S → Option (V × World V S)
  /-- A call of a named member of a value. -/
  operation : String → Typed V → List (Typed V) → World V S → Option (V × World V S)
  /-- A call of a computed value. -/
  apply : Typed V → List (Typed V) → World V S → Option (V × World V S)
  /-- A named member of a value, other than a field of the current object. -/
  member : String → V → World V S → Option V
  /-- The value of the field that a class declares under a name, in an object. -/
  readField : String → String → V → S → Option V
  /-- The fields after setting the one that a class declares under a name, in an object. -/
  writeField : String → String → V → V → S → Option S

/-! ## Variables -/

/-- The variables in scope. -/
structure Environment (V : Type) where
  /-- The variables of each open scope, innermost first. -/
  scopes : List (List (String × Typed V))

/-- Give the latest variable of a name in a scope a value. -/
def assignInScope {V : Type} (name : String) (value : V) :
    List (String × Typed V) → List (String × Typed V)
  | [] => []
  | entry :: rest =>
    if name = entry.1 then (entry.1, { entry.2 with value := value }) :: rest
    else entry :: assignInScope name value rest

/-- Give the latest variable of a name in the innermost scope that has one a value. -/
def assignInScopes {V : Type} (name : String) (value : V) :
    List (List (String × Typed V)) → List (List (String × Typed V))
  | [] => []
  | scope :: outer =>
    if (scope.lookup name).isSome then assignInScope name value scope :: outer
    else scope :: assignInScopes name value outer

namespace Environment

variable {V : Type} (environment : Environment V)

/-- The innermost and latest variable of a name. -/
def lookup (name : String) : Option (Typed V) :=
  environment.scopes.findSome? (List.lookup name)

/-- Open a scope. -/
def enter : Environment V := ⟨[] :: environment.scopes⟩

/-- Close the innermost scope. -/
def leave : Environment V := ⟨environment.scopes.tail⟩

/-- Declare a variable in the innermost scope. -/
def declare (name : String) (typed : Typed V) : Environment V :=
  match environment.scopes with
  | [] => environment
  | scope :: outer => ⟨((name, typed) :: scope) :: outer⟩

/-- Give the innermost and latest variable of a name a value. -/
def assign (name : String) (value : V) : Environment V :=
  ⟨assignInScopes name value environment.scopes⟩

/-- The kinds of the variables, in the form that kinds of expressions are told from. -/
def kinds : Locals (Option Scalar) :=
  { names := []
    scopes := environment.scopes.map (List.map fun entry => (entry.1, ⟨0, entry.2.kind⟩)) }

end Environment

/-- Where execution takes place: what operators mean, and the class around the statements. -/
structure Setting (V S : Type) where
  operators : Operators V S
  program : Program
  /-- The class around the statements. -/
  decl : ClassDecl

/-! ## Expressions -/

/-- An evaluation acts on the world and yields a value or traps. -/
abbrev Evaluation (V S : Type) := EStateM Unit (World V S)

namespace Evaluation

variable {V S α : Type}

/-- A value that may be missing. -/
def ofOption (value? : Option α) : Evaluation V S α := fun world =>
  match value? with
  | some value => .ok value world
  | none => .error () world

/-- An action on the world that may be impossible. -/
def ofAction (action : World V S → Option (α × World V S)) : Evaluation V S α := fun world =>
  match action world with
  | some (value, after) => .ok value after
  | none => .error () world

/-- Write a value out. -/
def write (value : V) : Evaluation V S Unit := fun world =>
  .ok () { world with written := world.written ++ [value] }

end Evaluation

namespace Setting

variable {V S : Type} (setting : Setting V S) (environment : Environment V)

open Evaluation

/-- What kinds of expressions are told from. -/
def frame : Frame :=
  ⟨setting.program, setting.decl, environment.kinds⟩

/-- A value of an expression, with the kind known of the expression. -/
def typed (expr : Expr) (value : V) : Typed V :=
  ⟨(setting.frame environment).kindOf expr, value⟩

/-- The name of the class whose field a name means. -/
def owner? (name : String) : Option String :=
  (setting.program.fieldOf? setting.decl name).map fun found => found.1.name

/-- The value of a literal. -/
def literal (expr : Expr) : Evaluation V S V :=
  ofOption ((Constant.ofExpr? expr).bind setting.operators.constant)

/-- The value of the field that a name means. -/
def readField (name : String) : Evaluation V S V := fun world =>
  ofOption ((setting.owner? name).bind fun owner =>
    setting.operators.readField owner name setting.operators.self world.store) world

/-- Set the field that a name means. -/
def writeField (name : String) (value : V) : Evaluation V S Unit :=
  ofAction fun world =>
    (setting.owner? name).bind fun owner =>
      (setting.operators.writeField owner name setting.operators.self value world.store).map
        fun store => ((), { world with store := store })

/-- The value of a name: variables come before fields. -/
def readName (name : String) : Evaluation V S V :=
  match environment.lookup name with
  | some found => pure found.value
  | none => setting.readField name

/-- A member of the current object: a field of it, or something else. -/
def readOwn (name : String) : Evaluation V S V := fun world =>
  match setting.owner? name with
  | some _ => setting.readField name world
  | none => ofOption (setting.operators.member name setting.operators.self world) world

/-- Call a named routine. The one that writes a value out yields no value, so nothing can use it as
an operand. -/
def callRoutine (name : String) (operands : List (Typed V)) : Evaluation V S V := do
  if name = writeRoutine then
    match operands with
    | [operand] =>
      write operand.value
      throw ()
    | _ => throw ()
  else ofAction (setting.operators.routine name operands)

end Setting

section Evaluate

variable {V S : Type} (setting : Setting V S) (environment : Environment V)

open Evaluation

namespace Expr

mutual

/-- The value of an expression. -/
def eval : Expr → Evaluation V S V
  | .ident name _ _ => setting.readName environment name
  | .self _ => pure setting.operators.self
  | .int text position => setting.literal (.int text position)
  | .real text position => setting.literal (.real text position)
  | .bool value position => setting.literal (.bool value position)
  | .binary op left right _ => do
    let leftValue ← left.eval
    let rightValue ← right.eval
    ofOption (setting.operators.binary op (setting.typed environment left leftValue)
      (setting.typed environment right rightValue))
  | .member (.self _) name _ => setting.readOwn name
  | .member target name _ => do
    let object ← target.eval
    ofAction fun world => (setting.operators.member name object world).map (·, world)
  | .call (.ident name _ _) arguments _ => do
    let operands ← evalList arguments
    setting.callRoutine name operands
  | .call (.member receiver name _) arguments _ => do
    let value ← receiver.eval
    let operands ← evalList arguments
    ofAction (setting.operators.operation name (setting.typed environment receiver value) operands)
  | .call callee arguments _ => do
    let value ← callee.eval
    let operands ← evalList arguments
    ofAction (setting.operators.apply (setting.typed environment callee value) operands)

/-- The values of expressions in order, with their kinds. -/
def evalList : List Expr → Evaluation V S (List (Typed V))
  | [] => pure []
  | expr :: rest => do
    let value ← expr.eval
    let operands ← evalList rest
    return setting.typed environment expr value :: operands

end

/-- Whether an expression is a name or a member, which are called in their own ways. -/
def isNamed : Expr → Bool
  | .ident _ _ _ | .member _ _ _ => true
  | _ => false

/-- Whether an expression is the current object, whose members are read in their own way. -/
def isSelf : Expr → Bool
  | .self _ => true
  | _ => false

/-- A member of something else than the current object. -/
theorem eval_member {setting : Setting V S} {environment : Environment V} {target : Expr}
    (notSelf : target.isSelf = false) (name : String) (position : Position) :
    (member target name position).eval setting environment = (do
      let object ← target.eval setting environment
      ofAction fun world =>
        (setting.operators.member name object world).map (·, world)) := by
  cases target with
  | self => cases notSelf
  | _ => rfl

/-- A call of something without a name. -/
theorem eval_call {setting : Setting V S} {environment : Environment V} {callee : Expr}
    (notNamed : callee.isNamed = false) (arguments : List Expr) (position : Position) :
    (call callee arguments position).eval setting environment = (do
      let value ← callee.eval setting environment
      let operands ← evalList setting environment arguments
      ofAction (setting.operators.apply (setting.typed environment callee value) operands)) := by
  cases callee with
  | ident | member => cases notNamed
  | _ => rfl

/-- What a call of the routine that writes a value out is to write. -/
def written? : Expr → Option Expr
  | .call (.ident name _ _) [argument] _ => if name = writeRoutine then some argument else none
  | _ => none

/-- Evaluate an expression for its effect. -/
def perform (expr : Expr) : Evaluation V S Unit := do
  match expr.written? with
  | some argument => write (← argument.eval setting environment)
  | none =>
    let _ ← expr.eval setting environment

/-- Whether a test holds. -/
def test (expr : Expr) : Evaluation V S Bool := do
  ofOption (setting.operators.truth (← expr.eval setting environment))

end Expr

end Evaluate

/-! ## Statements -/

/-- What execution acts on. -/
structure State (V S : Type) where
  environment : Environment V
  /-- Fields and output. -/
  world : World V S

namespace State

variable {V S : Type} (state : State V S)

/-- Open a scope. -/
def enter : State V S := { state with environment := state.environment.enter }

/-- Close the innermost scope. -/
def leave : State V S := { state with environment := state.environment.leave }

/-- Declare a variable. -/
def declare (name : String) (typed : Typed V) : State V S :=
  { state with environment := state.environment.declare name typed }

/-- Give a variable a value. -/
def assign (name : String) (value : V) : State V S :=
  { state with environment := state.environment.assign name value }

end State

/-- How a statement completes. -/
inductive Completion (V : Type) where
  /-- Execution goes on after it. -/
  | normal
  /-- The innermost loop is to be left. -/
  | left
  /-- The method is to return a value. -/
  | returned (value : V)
  /-- There is no result. -/
  | trapped
  deriving DecidableEq

/-- The meaning of a statement: the state before, how it completes and the state after. -/
abbrev Meaning (V S : Type) := State V S → Completion V → State V S → Prop

namespace Meaning

variable {V S α : Type}

/-- Complete in a given way without a change. -/
def complete (how : Completion V) : Meaning V S := fun state completion after =>
  completion = how ∧ after = state

/-- Change the state and go on. -/
def change (update : State V S → State V S) : Meaning V S := fun state completion after =>
  completion = .normal ∧ after = update state

/-- Evaluate something and go on with its value, or trap. -/
def evaluate (evaluation : Environment V → Evaluation V S α) (next : α → Meaning V S) :
    Meaning V S := fun state completion after =>
  match evaluation state.environment state.world with
  | .ok value world => next value { state with world := world } completion after
  | .error _ world => completion = .trapped ∧ after = { state with world := world }

/-- One after the other, unless the first does not complete normally. -/
def sequence (first second : Meaning V S) : Meaning V S := fun state completion after =>
  (∃ middle, first state .normal middle ∧ second middle completion after) ∨
    (completion ≠ .normal ∧ first state completion after)

/-- In a scope of its own. -/
def enclosed (inner : Meaning V S) : Meaning V S := fun state completion after =>
  ∃ last, inner state.enter completion last ∧ after = last.leave

/-- A loop: the body runs as long as the test holds. -/
inductive Iterate (test : Environment V → Evaluation V S Bool) (body : Meaning V S) : Meaning V S
  /-- The test fails. -/
  | done {state world} (tested : test state.environment state.world = .ok false world) :
      Iterate test body state .normal { state with world := world }
  /-- The test traps. -/
  | trap {state world} (tested : test state.environment state.world = .error () world) :
      Iterate test body state .trapped { state with world := world }
  /-- The body completes, and the loop starts again. -/
  | again {state middle after world completion}
      (tested : test state.environment state.world = .ok true world)
      (once : body { state with world := world } .normal middle)
      (rest : Iterate test body middle completion after) :
      Iterate test body state completion after
  /-- The body leaves the loop. -/
  | left {state after world} (tested : test state.environment state.world = .ok true world)
      (once : body { state with world := world } .left after) :
      Iterate test body state .normal after
  /-- The body returns or traps. -/
  | stop {state after world completion} (tested : test state.environment state.world = .ok true world)
      (once : body { state with world := world } completion after)
      (notNormal : completion ≠ .normal) (notLeft : completion ≠ .left) :
      Iterate test body state completion after

/-- Nothing needs to be done after a statement. -/
@[simp] theorem sequence_complete (first : Meaning V S) :
    sequence first (complete .normal) = first := by
  funext state completion after
  refine propext ⟨?_, fun ran => ?_⟩
  · rintro (⟨middle, ran, rfl, rfl⟩ | ⟨_, stopped⟩)
    · exact ran
    · exact stopped
  · by_cases normal : completion = .normal
    · subst normal
      exact .inl ⟨after, ran, rfl, rfl⟩
    · exact .inr ⟨normal, ran⟩

end Meaning

section Execute

variable {V S : Type}

open Meaning

/-- The meaning of an assignment of a value to a name: variables come before fields. -/
def Setting.assignName (setting : Setting V S) (name : String) (value : V) : Meaning V S :=
  fun state completion after =>
    match state.environment.lookup name with
    | some _ => change (·.assign name value) state completion after
    | none =>
      evaluate (fun _ => setting.writeField name value) (fun _ => complete .normal)
        state completion after

/-- The meaning of an assignment. Only names can be assigned to. -/
def Setting.assignTo (setting : Setting V S) (target : Expr) (value : V) : Meaning V S :=
  match target with
  | .ident name _ _ => setting.assignName name value
  | _ => complete .trapped

mutual

/-- The meaning of a statement. -/
def Stmt.exec (setting : Setting V S) : Stmt → Meaning V S
  | .declare name init _ => fun state =>
    evaluate (init.eval setting)
      (fun value => change (·.declare name (setting.typed state.environment init value))) state
  | .assign target value _ => evaluate (value.eval setting) (setting.assignTo target)
  | .branch test body none _ =>
    evaluate (test.test setting) fun holds =>
      if holds then enclosed (execBlock setting body) else complete .normal
  | .branch test body (some alternative) _ =>
    evaluate (test.test setting) fun holds =>
      if holds then enclosed (execBlock setting body)
      else enclosed (execBlock setting alternative)
  | .loop test body _ => Iterate (test.test setting) (enclosed (execBlock setting body))
  | .ret value _ => evaluate (value.eval setting) fun result => complete (.returned result)
  | .leave _ => complete .left
  | .eval value _ => evaluate (value.perform setting) fun _ => complete .normal

/-- The meaning of statements in order. -/
def Stmt.execBlock (setting : Setting V S) : List Stmt → Meaning V S
  | [] => complete .normal
  | stmt :: rest => sequence (stmt.exec setting) (execBlock setting rest)

end

@[simp] theorem Stmt.execBlock_singleton (setting : Setting V S) (stmt : Stmt) :
    execBlock setting [stmt] = stmt.exec setting := by
  rw [execBlock, execBlock, sequence_complete]

end Execute

end ClassLang
