import ClassLang.Proofs.Execution

/-! # Names and scopes

Kinds and values of expressions depend on what names mean, and on nothing else of an environment. So
an empty scope makes no difference to an expression, wherever it stands, nor to statements that
declare nothing in it. -/

namespace ClassLang

open ClassLang.Expr List Stmt Setting

variable {V S : Type}

/-! ## Kinds -/

/-- Kinds of names depend on what is known of variables only. -/
theorem Frame.kindOfName_congr {first second : Frame} (program : first.program = second.program)
    (decl : first.decl = second.decl) (locals : ∀ name, (first.locals.lookup name).map Local.info =
      (second.locals.lookup name).map Local.info) (name : String) :
    first.kindOfName name = second.kindOfName name := by
  have same := locals name
  unfold kindOfName
  rw [program, decl]
  cases found : first.locals.lookup name <;> cases found' : second.locals.lookup name <;>
    rw [found, found'] at same <;> simp_all

theorem Frame.kindOf_congr {first second : Frame}
    (names : ∀ name, first.kindOfName name = second.kindOfName name) (expr : Expr) :
    first.kindOf expr = second.kindOf expr := by
  fun_induction first.kindOf expr <;> simp_all [kindOf]

/-- The kind of a variable among the kinds of all variables. -/
theorem Environment.lookup_kinds (environment : Environment V) (name : String) :
    (environment.kinds.lookup name).map Local.info = (environment.lookup name).map Typed.kind := by
  have scope (bindings : List (String × Typed V)) :
      (bindings.map fun entry => (entry.1, (⟨0, entry.2.kind⟩ : Local (Option Scalar)))).lookup name =
        (bindings.lookup name).map fun typed => ⟨0, typed.kind⟩ := by
    induction bindings with
    | nil => rfl
    | cons entry rest ih =>
      rw [map_cons, lookup_cons, lookup_cons]
      cases name == entry.1 with
      | true => rfl
      | false => exact ih
  unfold kinds Locals.lookup lookup
  induction environment.scopes with
  | nil => rfl
  | cons bindings outer ih =>
    rw [map_cons, findSome?_cons, findSome?_cons, scope]
    cases bindings.lookup name with
    | some typed => rfl
    | none => exact ih

/-! ## Values -/

section Values

variable {setting : Setting V S} {first second : Environment V}

/-- What is known of a value depends on what names mean only. -/
theorem Setting.typed_congr (same : ∀ name, first.lookup name = second.lookup name) (expr : Expr)
    (value : V) : setting.typed first expr value = setting.typed second expr value := by
  have kinds (name : String) : (first.kinds.lookup name).map Local.info =
      (second.kinds.lookup name).map Local.info := by
    rw [first.lookup_kinds, second.lookup_kinds, same]
  have kind : (setting.frame first).kindOf expr = (setting.frame second).kindOf expr := by
    refine Frame.kindOf_congr (Frame.kindOfName_congr ?_ ?_ kinds) expr
    · rfl
    · rfl
  rw [typed, typed, kind]

mutual

/-- The value of an expression depends on what names mean only. -/
theorem Expr.eval_congr (same : ∀ name, first.lookup name = second.lookup name) (expr : Expr) :
    expr.eval setting first = expr.eval setting second := by
  cases expr with
  | self | int | real | bool => rfl
  | ident name types => rw [eval, eval, readName, readName, same]
  | binary op left right =>
    rw [eval, eval, eval_congr same left, eval_congr same right]
    simp only [typed_congr same]
  | member target name =>
    cases self : target.isSelf with
    | true =>
      cases target with
      | self => rfl
      | _ => cases self
    | false => rw [eval_member self, eval_member self, eval_congr same target]
  | call callee arguments =>
    have operands := evalList_congr same arguments
    cases named : callee.isNamed with
    | false =>
      rw [eval_call named, eval_call named, operands, eval_congr same callee]
      simp only [typed_congr same]
    | true =>
      cases callee with
      | ident name types => rw [eval, eval, operands]
      | member receiver name =>
        rw [eval, eval, operands, eval_congr same receiver]
        simp only [typed_congr same]
      | _ => cases named

theorem Expr.evalList_congr (same : ∀ name, first.lookup name = second.lookup name)
    (exprs : List Expr) : evalList setting first exprs = evalList setting second exprs := by
  cases exprs with
  | nil => rfl
  | cons expr rest =>
    rw [evalList, evalList, eval_congr same expr, evalList_congr same rest]
    simp only [typed_congr same]

end

end Values

/-! ## Empty scopes -/

/-- Put an empty scope inside a number of scopes. -/
def Environment.insertScope (environment : Environment V) (level : Nat) : Environment V :=
  ⟨environment.scopes.insertIdx level []⟩

/-- Assignments pass an empty scope. -/
theorem assignInScopes_insertIdx (name : String) (value : V) (level : Nat)
    (scopes : List (List (String × Typed V))) :
    assignInScopes name value (scopes.insertIdx level []) =
      (assignInScopes name value scopes).insertIdx level [] := by
  induction level generalizing scopes with
  | zero => rfl
  | succ level ih =>
    cases scopes with
    | nil => rfl
    | cons scope outer =>
      rw [insertIdx_succ_cons, assignInScopes, assignInScopes]
      split
      · rw [insertIdx_succ_cons]
      · rw [insertIdx_succ_cons, ih]

/-- Assignments make no scopes. -/
theorem length_assignInScopes (name : String) (value : V) (scopes : List (List (String × Typed V))) :
    (assignInScopes name value scopes).length = scopes.length := by
  induction scopes with
  | nil => rfl
  | cons scope outer ih =>
    rw [assignInScopes]
    split
    · rfl
    · rw [length_cons, length_cons, ih]

/-- Declarations make no scopes. -/
theorem length_declare (environment : Environment V) (name : String) (typed : Typed V) :
    (environment.declare name typed).scopes.length = environment.scopes.length := by
  unfold Environment.declare
  split
  · rfl
  · next scopes => rw [scopes, length_cons, length_cons]

namespace Environment

variable {environment : Environment V} {level : Nat}

/-- An empty scope does not change what names mean. -/
theorem lookup_insertScope (environment : Environment V) (level : Nat) (name : String) :
    (environment.insertScope level).lookup name = environment.lookup name := by
  unfold insertScope lookup
  dsimp only
  generalize environment.scopes = scopes
  induction level generalizing scopes with
  | zero => rfl
  | succ level ih =>
    cases scopes with
    | nil => rfl
    | cons scope outer =>
      rw [insertIdx_succ_cons, findSome?_cons, findSome?_cons, ih]

/-- Declarations are made inside of an empty scope that is not the innermost. -/
theorem declare_insertScope (environment : Environment V) (level : Nat) (name : String)
    (typed : Typed V) :
    (environment.insertScope (level + 1)).declare name typed =
      (environment.declare name typed).insertScope (level + 1) := by
  obtain ⟨scopes⟩ := environment
  cases scopes <;> rfl

/-- Leaving a scope inside of an empty scope. -/
theorem leave_insertScope (nonempty : environment.scopes ≠ []) :
    (environment.insertScope (level + 1)).leave = environment.leave.insertScope level := by
  obtain ⟨scopes⟩ := environment
  cases scopes with
  | nil => exact absurd rfl nonempty
  | cons scope outer => rfl

end Environment

namespace State

/-- Put an empty scope inside a number of scopes. -/
def insertScope (state : State V S) (level : Nat) : State V S :=
  { state with environment := state.environment.insertScope level }

/-- The number of open scopes. -/
def depth (state : State V S) : Nat := state.environment.scopes.length

end State

/-! ## Statements and empty scopes -/

/-- A meaning that closes no scopes but its own, and that does not depend on whether there is an
empty scope inside a number of scopes. -/
structure Meaning.Blind (meaning : Meaning V S) (level : Nat) : Prop where
  /-- As many scopes are open after it as before. -/
  depth : ∀ {state after : State V S} {completion : Completion V},
    meaning state completion after → after.depth = state.depth
  /-- With another empty scope it does the same. -/
  blind : ∀ (state last : State V S) (completion : Completion V),
    meaning (state.insertScope level) completion last ↔
      ∃ after, meaning state completion after ∧ last = after.insertScope level

namespace Meaning.Blind

variable {level : Nat} {first second meaning : Meaning V S}

/-- Statements that do nothing. -/
theorem complete (how : Completion V) : (complete how : Meaning V S).Blind level where
  depth := by
    rintro state after completion ⟨-, rfl⟩
    rfl
  blind state last completion := by
    constructor
    · rintro ⟨rfl, rfl⟩
      exact ⟨state, ⟨rfl, rfl⟩, rfl⟩
    · rintro ⟨after, ⟨rfl, rfl⟩, rfl⟩
      exact ⟨rfl, rfl⟩

/-- Changes that pass an empty scope. -/
theorem change {update : State V S → State V S} (depth : ∀ state, (update state).depth = state.depth)
    (passes : ∀ state : State V S,
      update (state.insertScope level) = (update state).insertScope level) :
    (change update).Blind level where
  depth := by
    rintro state after completion ⟨-, rfl⟩
    exact depth state
  blind state last completion := by
    constructor
    · rintro ⟨rfl, rfl⟩
      exact ⟨update state, ⟨rfl, rfl⟩, passes state⟩
    · rintro ⟨after, ⟨rfl, rfl⟩, rfl⟩
      exact ⟨rfl, (passes state).symm⟩

/-- Evaluations that depend on what names mean only. -/
theorem evaluate {α : Type} {evaluation : Environment V → Evaluation V S α} {next : α → Meaning V S}
    (passes : ∀ environment : Environment V,
      evaluation (environment.insertScope level) = evaluation environment)
    (follow : ∀ value, (next value).Blind level) : (evaluate evaluation next).Blind level where
  depth := by
    intro state after completion ran
    unfold Meaning.evaluate at ran
    split at ran
    · have kept := (follow _).depth ran
      exact kept
    · rw [ran.2]
      rfl
  blind state last completion := by
    unfold Meaning.evaluate State.insertScope
    dsimp only
    rw [passes]
    cases evaluation state.environment state.world with
    | ok value world => exact (follow value).blind { state with world := world } last completion
    | error fault world =>
      constructor
      · rintro ⟨rfl, rfl⟩
        exact ⟨_, ⟨rfl, rfl⟩, rfl⟩
      · rintro ⟨after, ⟨rfl, rfl⟩, rfl⟩
        exact ⟨rfl, rfl⟩

/-- Statements that depend on the environment only through something that passes an empty scope. -/
theorem select {ι : Type} (key : Environment V → ι) (choose : ι → Meaning V S)
    (passes : ∀ environment : Environment V, key (environment.insertScope level) = key environment)
    (each : ∀ selected, (choose selected).Blind level) :
    Blind (fun state => choose (key state.environment) state) level where
  depth ran := (each _).depth ran
  blind state last completion := by
    change choose (key (state.environment.insertScope level)) _ _ _ ↔ _
    rw [passes]
    exact (each _).blind state last completion

/-- One after the other. -/
theorem sequence (one : first.Blind level) (two : second.Blind level) :
    (first.sequence second).Blind level where
  depth := by
    rintro state after completion (⟨middle, ran, rest⟩ | ⟨-, stopped⟩)
    · rw [two.depth rest, one.depth ran]
    · exact one.depth stopped
  blind state last completion := by
    constructor
    · rintro (⟨middle, ran, rest⟩ | ⟨notNormal, stopped⟩)
      · obtain ⟨between, ran', rfl⟩ := (one.blind _ _ _).mp ran
        obtain ⟨after, rest', rfl⟩ := (two.blind _ _ _).mp rest
        exact ⟨after, .inl ⟨between, ran', rest'⟩, rfl⟩
      · obtain ⟨after, stopped', rfl⟩ := (one.blind _ _ _).mp stopped
        exact ⟨after, .inr ⟨notNormal, stopped'⟩, rfl⟩
    · rintro ⟨after, ⟨middle, ran, rest⟩ | ⟨notNormal, stopped⟩, rfl⟩
      · exact .inl ⟨_, (one.blind _ _ _).mpr ⟨middle, ran, rfl⟩,
          (two.blind _ _ _).mpr ⟨after, rest, rfl⟩⟩
      · exact .inr ⟨notNormal, (one.blind _ _ _).mpr ⟨after, stopped, rfl⟩⟩

/-- In a scope of their own, statements see the empty scope one level further out. -/
theorem enclosed (inner : meaning.Blind (level + 1)) : meaning.enclosed.Blind level := by
  have leaves {state last : State V S} {completion : Completion V}
      (ran : meaning state.enter completion last) :
      (last.insertScope (level + 1)).leave = last.leave.insertScope level := by
    have nonempty : last.environment.scopes ≠ [] :=
      ne_nil_of_length_eq_add_one (inner.depth ran)
    unfold State.leave State.insertScope
    dsimp only
    rw [Environment.leave_insertScope nonempty]
  refine ⟨?_, fun state last completion => ?_⟩
  · rintro state after completion ⟨last, ran, rfl⟩
    have kept := inner.depth ran
    unfold State.depth State.leave State.enter Environment.enter Environment.leave at *
    simp_all
  · constructor
    · rintro ⟨last, ran, rfl⟩
      obtain ⟨after, ran', rfl⟩ := (inner.blind state.enter _ _).mp ran
      exact ⟨after.leave, ⟨after, ran', rfl⟩, leaves ran'⟩
    · rintro ⟨after, ⟨last, ran, rfl⟩, rfl⟩
      exact ⟨_, (inner.blind state.enter _ _).mpr ⟨last, ran, rfl⟩, (leaves ran).symm⟩

/-- Loops. -/
theorem iterate {test : Environment V → Evaluation V S Bool} (body : meaning.Blind level)
    (passes : ∀ environment : Environment V, test (environment.insertScope level) = test environment) :
    (Iterate test meaning).Blind level where
  depth := by
    intro state after completion ran
    induction ran with
    | done | trap => rfl
    | again _ once _ ih =>
      rw [ih, body.depth once]
      rfl
    | left _ once | stop _ once =>
      have kept := body.depth once
      exact kept
  blind state last completion := by
    have tests (state : State V S) : test (state.insertScope level).environment
        (state.insertScope level).world = test state.environment state.world :=
      congrFun (passes state.environment) state.world
    constructor
    · intro ran
      generalize start : state.insertScope level = padded at ran
      induction ran generalizing state with
      | done tested =>
        subst start
        exact ⟨_, .done ((tests state).symm.trans tested), rfl⟩
      | trap tested =>
        subst start
        exact ⟨_, .trap ((tests state).symm.trans tested), rfl⟩
      | @again _ _ _ world _ tested once rest ih =>
        subst start
        obtain ⟨between, once', rfl⟩ := (body.blind { state with world := world } _ _).mp once
        obtain ⟨after, rest', rfl⟩ := ih between rfl
        exact ⟨after, .again ((tests state).symm.trans tested) once' rest', rfl⟩
      | @left _ _ world tested once =>
        subst start
        obtain ⟨after, once', rfl⟩ := (body.blind { state with world := world } _ _).mp once
        exact ⟨after, .left ((tests state).symm.trans tested) once', rfl⟩
      | @stop _ _ world _ tested once notNormal notLeft =>
        subst start
        obtain ⟨after, once', rfl⟩ := (body.blind { state with world := world } _ _).mp once
        exact ⟨after, .stop ((tests state).symm.trans tested) once' notNormal notLeft, rfl⟩
    · rintro ⟨after, ran, rfl⟩
      induction ran with
      | done tested => exact .done ((tests _).trans tested)
      | trap tested => exact .trap ((tests _).trans tested)
      | again tested once rest ih =>
        exact .again ((tests _).trans tested) ((body.blind _ _ _).mpr ⟨_, once, rfl⟩) ih
      | left tested once =>
        exact .left ((tests _).trans tested) ((body.blind _ _ _).mpr ⟨_, once, rfl⟩)
      | stop tested once notNormal notLeft =>
        exact .stop ((tests _).trans tested) ((body.blind _ _ _).mpr ⟨_, once, rfl⟩) notNormal
          notLeft

/-- For statements that do not depend on an empty scope, a scope of their own makes no difference. -/
theorem enclosed_eq (blind : meaning.Blind 0) : meaning.enclosed = meaning := by
  funext state completion after
  refine propext ⟨?_, fun ran => ?_⟩
  · rintro ⟨last, ran, rfl⟩
    obtain ⟨after, ran', rfl⟩ := (blind.blind state _ _).mp ran
    exact ran'
  · exact ⟨after.enter, (blind.blind state _ _).mpr ⟨after, ran, rfl⟩, rfl⟩

end Meaning.Blind

/-- Whether a statement is a declaration. -/
def Stmt.isDeclaration : Stmt → Bool
  | .declare _ _ _ => true
  | _ => false

section Statements

variable {setting : Setting V S}

theorem Expr.eval_insertScope (expr : Expr) (environment : Environment V) (level : Nat) :
    expr.eval setting (environment.insertScope level) = expr.eval setting environment :=
  eval_congr (environment.lookup_insertScope level) expr

theorem Expr.test_insertScope (expr : Expr) (environment : Environment V) (level : Nat) :
    expr.test setting (environment.insertScope level) = expr.test setting environment := by
  rw [test, test, expr.eval_insertScope]

/-- Assignments do not depend on empty scopes. -/
theorem Setting.blind_assignTo (target : Expr) (value : V) (level : Nat) :
    (setting.assignTo target value).Blind level := by
  cases target with
  | ident name types position =>
    let choose (found : Option (Typed V)) : Meaning V S :=
      found.elim (.evaluate (fun _ => setting.writeField name value) fun _ => .complete .normal)
        fun _ => .change (·.assign name value)
    have selects : setting.assignTo (.ident name types position) value =
        fun state => choose (state.environment.lookup name) state := by
      funext state completion after
      rw [assignTo, assignName]
      cases state.environment.lookup name <;> rfl
    rw [selects]
    refine .select (·.lookup name) choose (·.lookup_insertScope level name) fun found => ?_
    cases found with
    | some typed =>
      refine .change (fun state => ?_) fun state => ?_
      · exact length_assignInScopes name value state.environment.scopes
      · exact congrArg (fun scopes => State.mk ⟨scopes⟩ state.world)
          (assignInScopes_insertIdx name value level state.environment.scopes)
    | none =>
      dsimp only [choose, Option.elim_none]
      exact .evaluate (fun _ => rfl) fun _ => .complete .normal
  | _ => exact .complete .trapped

mutual

/-- Statements do not depend on an empty scope, unless they declare something in it. -/
theorem Stmt.blind_exec (stmt : Stmt) {level : Nat}
    (outside : level = 0 → stmt.isDeclaration = false) : (stmt.exec setting).Blind level := by
  cases stmt with
  | declare name init =>
    obtain ⟨level, rfl⟩ : ∃ outer, level = outer + 1 :=
      Nat.exists_eq_succ_of_ne_zero fun zero => Bool.noConfusion (outside zero)
    let choose (typed : V → Typed V) : Meaning V S :=
      .evaluate (init.eval setting) fun value => .change (·.declare name (typed value))
    refine .select (setting.typed · init) choose (fun environment => ?_) fun typed => ?_
    · funext value
      exact typed_congr (environment.lookup_insertScope _) init value
    · refine .evaluate (init.eval_insertScope · _) fun value => ?_
      refine .change (fun state => length_declare state.environment name (typed value)) fun state => ?_
      exact congrArg (State.mk · state.world)
        (state.environment.declare_insertScope level name (typed value))
  | assign target value =>
    rw [exec]
    exact .evaluate (value.eval_insertScope · level) fun result =>
      blind_assignTo target result level
  | branch test body alternative =>
    have inner : (execBlock setting body).enclosed.Blind level :=
      (blind_execBlock body fun zero => absurd zero (Nat.succ_ne_zero level)).enclosed
    cases alternative with
    | none =>
      rw [exec]
      refine .evaluate (test.test_insertScope · level) fun holds => ?_
      split
      · exact inner
      · exact .complete .normal
    | some alternative =>
      have other : (execBlock setting alternative).enclosed.Blind level :=
        (blind_execBlock alternative fun zero => absurd zero (Nat.succ_ne_zero level)).enclosed
      rw [exec]
      refine .evaluate (test.test_insertScope · level) fun holds => ?_
      split
      · exact inner
      · exact other
  | loop test body =>
    have inner : (execBlock setting body).enclosed.Blind level :=
      (blind_execBlock body fun zero => absurd zero (Nat.succ_ne_zero level)).enclosed
    rw [exec]
    exact .iterate inner (test.test_insertScope · level)
  | ret value =>
    rw [exec]
    exact .evaluate (value.eval_insertScope · level) fun result => .complete _
  | leave =>
    rw [exec]
    exact .complete _
  | eval value =>
    rw [exec]
    refine .evaluate (fun environment => ?_) fun _ => .complete _
    unfold perform
    simp only [eval_insertScope]

theorem Stmt.blind_execBlock (block : List Stmt) {level : Nat}
    (outside : level = 0 → block.any isDeclaration = false) :
    (execBlock setting block).Blind level := by
  cases block with
  | nil =>
    rw [execBlock]
    exact .complete _
  | cons stmt rest =>
    rw [execBlock]
    simp only [any_cons, Bool.or_eq_false_iff] at outside
    exact .sequence (blind_exec stmt fun zero => (outside zero).1)
      (blind_execBlock rest fun zero => (outside zero).2)

end

end Statements

end ClassLang
