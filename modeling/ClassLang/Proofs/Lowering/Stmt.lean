import ClassLang.Proofs.Lowering.Simulation

/-! # Code of statements

The code of statements does on the machine what structured execution says, for every meaning of the
primitive instructions: whenever the statements terminate, the code writes out the same values,
leaves the same fields and the same values of visible variables, and ends as the statements
complete. -/

namespace ClassLang

open Stmt Primitives List

variable {V S : Type}

/-! ## Where values are written out -/

/-- Whether values are written out by the whole expression only, not by a part of it. -/
def Expr.writesOnTop : Expr → Bool
  | .call callee arguments _ => callee.writeFree && Expr.writeFreeList arguments
  | expr => expr.writeFree

mutual

/-- Whether values are written out by whole expression statements only. -/
def Stmt.writesOnTop : Stmt → Bool
  | .declare _ init _ => init.writeFree
  | .assign target value _ => target.writeFree && value.writeFree
  | .branch test body none _ => test.writeFree && blockWritesOnTop body
  | .branch test body (some alternative) _ =>
    test.writeFree && blockWritesOnTop body && blockWritesOnTop alternative
  | .loop test body _ => test.writeFree && blockWritesOnTop body
  | .ret value _ => value.writeFree
  | .leave _ => true
  | .eval value _ => value.writesOnTop

/-- Whether values are written out by whole expression statements only. -/
def Stmt.blockWritesOnTop : List Stmt → Bool
  | [] => true
  | stmt :: rest => stmt.writesOnTop && blockWritesOnTop rest

end

/-- Calls of the routine that writes a value out. -/
theorem Expr.exists_of_isWrite {expr : Expr} (writes : expr.isWrite = true) :
    ∃ types arguments position position',
      expr = .call (.ident writeRoutine types position) arguments position' := by
  unfold isWrite at writes
  split at writes
  · obtain rfl := of_decide_eq_true writes
    exact ⟨_, _, _, _, rfl⟩
  · cases writes

/-- An expression that is no such call writes nothing out. -/
theorem Expr.quiet_of_not_isWrite {expr : Expr} (silent : ¬expr.isWrite = true)
    (onTop : expr.writesOnTop = true) : expr.written? = none ∧ expr.writeFree = true := by
  constructor
  · unfold written?
    split
    · simp_all [isWrite]
    · rfl
  · cases expr <;> simp_all [writesOnTop, writeFree]

namespace Primitives

/-! ## Single statements -/

section Single

variable {primitives : Primitives V S} {whole code : List Instruction} {exit? : Option Label}
  {index : Nat} {frame : Frame} {position : Position} {value : Expr}

/-- Evaluating in two steps. -/
theorem evaluate_bind {α β : Type} {first : Environment V → Evaluation V S α}
    {second : α → Evaluation V S β} {next : β → Meaning V S} {state last : State V S}
    {completion : Completion V}
    (executed : Meaning.evaluate (fun environment => first environment >>= second) next state
      completion last) :
    Meaning.evaluate first (fun value => .evaluate (fun _ => second value) next) state completion
      last := by
  unfold Meaning.evaluate at executed ⊢
  dsimp only [bind, EStateM.bind] at executed
  cases result : first state.environment state.world with
  | ok value world =>
    rw [result] at executed
    exact executed
  | error fault world =>
    rw [result] at executed
    exact executed

section Valued

variable (lowered : value.lower frame = .ok code) (quiet : value.writeFree = true)

include lowered quiet

/-- A statement that starts with the value of an expression goes on with it or traps. -/
theorem evaluate_cases {next : V → Meaning V S} {slots : Nat → Option V} {state last : State V S}
    {completion : Completion V} (holds : Holds slots frame.locals state.environment)
    (placed : Placed whole index code) (stack : List V)
    (executed : Meaning.evaluate (value.eval (primitives.settingOf frame)) next state completion
      last) :
    (∃ value, primitives.Runs whole ⟨index, stack, slots, state.world⟩
        ⟨index + code.length, value :: stack, slots, state.world⟩ ∧
      next value state completion last) ∨
    (completion = .trapped ∧ last = state ∧
      primitives.Fails whole ⟨index, stack, slots, state.world⟩) := by
  obtain ⟨value?, evaluated, yields⟩ := (Expr.emits_lower lowered).computes holds quiet
  have pushed := yields ⟨index, stack, slots, state.world⟩ rfl rfl placed
  rw [Meaning.evaluate, evaluated] at executed
  cases value? with
  | none => exact .inr ⟨executed.1, executed.2, pushed⟩
  | some value => exact .inl ⟨value, pushed, executed⟩

/-- Code for a declaration. -/
theorem simulates_declare {name : String} (allocated : frame.locals.Allocated)
    (placed : Placed whole index (code ++ [Instruction.storeLocal frame.locals.nextSlot])) :
    primitives.Simulates whole exit? index (code ++ [Instruction.storeLocal frame.locals.nextSlot])
      frame.locals (frame.locals.declare name (frame.kindOf value))
      ((declare name value position).exec (primitives.settingOf frame)) := by
  intro slots state last completion holds executed
  rw [exec] at executed
  rcases evaluate_cases lowered quiet holds placed.left [] executed with
    ⟨result, runs, rfl, rfl⟩ | ⟨rfl, rfl, fails⟩
  · have stored := holds.declare allocated name
      ((primitives.settingOf frame).typed state.environment value result)
    rw [Setting.typed, holds.kindOf primitives] at stored
    refine reaches_normal (runs.trans (runs_of_execute (placed.right rfl).head rfl)) ?_ rfl rfl ?_
    · rw [length_append]
      rfl
    · change Holds _ _ (state.environment.declare name _)
      rw [Setting.typed, holds.kindOf primitives]
      exact stored
  · exact reaches_trapped fails rfl holds (.declare allocated.nonempty _ _)

/-- Code for an assignment to a variable. -/
theorem simulates_assignVariable {name : String} {found : Local (Option Scalar)}
    (allocated : frame.locals.Allocated) (looked : frame.locals.lookup name = some found)
    (placed : Placed whole index (code ++ [Instruction.storeLocal found.slot])) :
    primitives.Simulates whole exit? index (code ++ [Instruction.storeLocal found.slot]) frame.locals
      frame.locals (.evaluate (value.eval (primitives.settingOf frame))
        ((primitives.settingOf frame).assignName name)) := by
  intro slots state last completion holds executed
  rcases evaluate_cases lowered quiet holds placed.left [] executed with
    ⟨value, runs, assigned⟩ | ⟨rfl, rfl, fails⟩
  · have related := holds.lookup name
    unfold Setting.assignName at assigned
    rw [looked] at related
    generalize state.environment.lookup name = typed at related assigned
    cases related
    obtain ⟨rfl, rfl⟩ := assigned
    refine reaches_normal (runs.trans (runs_of_execute (placed.right rfl).head rfl)) ?_ rfl rfl
      (scopes_assign holds allocated.distinct looked value)
    rw [length_append]
    rfl
  · exact reaches_trapped fails rfl holds (.refl allocated.nonempty)

/-- Code for an assignment to a field. The current object is pushed before the value. -/
theorem simulates_assignField {name owner : String} (nonempty : frame.locals.scopes ≠ [])
    (looked : frame.locals.lookup name = none) (owned : frame.owner? name = some owner)
    (placed : Placed whole index (.loadThis :: code ++ [Instruction.storeField owner name])) :
    primitives.Simulates whole exit? index (.loadThis :: code ++ [Instruction.storeField owner name])
      frame.locals frame.locals (.evaluate (value.eval (primitives.settingOf frame))
        ((primitives.settingOf frame).assignName name)) := by
  intro slots state last completion holds executed
  have pushed : primitives.Runs whole ⟨index, [], slots, state.world⟩
      ⟨index + 1, [primitives.self], slots, state.world⟩ := runs_of_execute placed.head rfl
  rcases evaluate_cases lowered quiet holds (placed.tail rfl).left [primitives.self] executed with
    ⟨value, runs, assigned⟩ | ⟨rfl, rfl, fails⟩
  · have related := holds.lookup name
    unfold Setting.assignName at assigned
    rw [looked] at related
    generalize state.environment.lookup name = typed at related assigned
    cases related
    have stores := ((placed.tail rfl).right rfl).head
    have owned' : (primitives.settingOf frame).owner? name = some owner := owned
    change Meaning.evaluate _ _ _ _ _ at assigned
    simp only [Meaning.evaluate, Setting.writeField, owned', Evaluation.ofAction, Option.bind_some]
      at assigned
    cases written : primitives.writeField owner name primitives.self value state.world.store with
    | none =>
      simp only [settingOf, operators, written] at assigned
      obtain ⟨rfl, rfl⟩ := assigned
      have traps : primitives.execute whole ⟨index + 1 + code.length, [value, primitives.self],
          slots, state.world⟩ (.storeField owner name) = none := by
        simp [execute, written]
      have fails : primitives.Fails whole ⟨index, [], slots, state.world⟩ :=
        ⟨_, pushed.trans runs, ⟨_, stores, rfl, traps⟩, rfl, rfl⟩
      exact reaches_trapped fails rfl holds (.refl nonempty)
    | some store =>
      simp only [settingOf, operators, written] at assigned
      obtain ⟨rfl, rfl⟩ := assigned
      have sets : primitives.execute whole ⟨index + 1 + code.length, [value, primitives.self],
          slots, state.world⟩ (.storeField owner name) =
          some ⟨index + 1 + code.length + 1, [], slots, { state.world with store := store }⟩ := by
        simp [execute, written, Configuration.advance]
      refine reaches_normal ((pushed.trans runs).trans (runs_of_execute stores sets)) ?_ rfl rfl
        holds
      simp only [length_append, length_cons, length_nil]
      omega
  · exact (reaches_trapped fails rfl holds (.refl nonempty)).behind pushed

/-- Code for a return. -/
theorem simulates_ret (nonempty : frame.locals.scopes ≠ [])
    (placed : Placed whole index (code ++ [Instruction.ret])) :
    primitives.Simulates whole exit? index (code ++ [Instruction.ret]) frame.locals frame.locals
      ((ret value position).exec (primitives.settingOf frame)) := by
  intro slots state last completion holds executed
  rw [exec] at executed
  rcases evaluate_cases lowered quiet holds placed.left [] executed with
    ⟨value, runs, rfl, rfl⟩ | ⟨rfl, rfl, fails⟩
  · refine ⟨_, 0, runs, ⟨(placed.right rfl).head, rfl⟩, rfl, ?_, nofun⟩
    rw [Locals.withoutLatest_zero]
    exact holds
  · exact reaches_trapped fails rfl holds (.refl nonempty)

/-- Code for an expression whose value an instruction takes for its effect. -/
theorem simulates_effect {instruction : Instruction} (nonempty : frame.locals.scopes ≠ [])
    (effect : V → World V S → World V S)
    (takes : ∀ counter taken slots world,
      primitives.execute whole ⟨counter, [taken], slots, world⟩ instruction =
        some ⟨counter + 1, [], slots, effect taken world⟩)
    (placed : Placed whole index (code ++ [instruction])) :
    primitives.Simulates whole exit? index (code ++ [instruction]) frame.locals frame.locals
      (.evaluate (fun environment => value.eval (primitives.settingOf frame) environment >>=
        fun taken world => .ok () (effect taken world)) fun _ => .complete .normal) := by
  intro slots state last completion holds executed
  rcases evaluate_cases lowered quiet holds placed.left [] (evaluate_bind executed) with
    ⟨taken, runs, rfl, rfl⟩ | ⟨rfl, rfl, fails⟩
  · have taking := runs_of_execute (placed.right rfl).head (takes _ taken slots state.world)
    refine reaches_normal (runs.trans taking) ?_ rfl rfl holds
    rw [length_append]
    rfl
  · exact reaches_trapped fails rfl holds (.refl nonempty)

end Valued

/-- Code for an assignment. -/
theorem simulates_assign {target : Expr} (allocated : frame.locals.Allocated)
    (lowered : frame.assignCode target value = .ok code) (quiet : value.writeFree = true)
    (placed : Placed whole index code) :
    primitives.Simulates whole exit? index code frame.locals frame.locals
      ((assign target value position).exec (primitives.settingOf frame)) := by
  rw [exec]
  unfold Frame.assignCode at lowered
  split at lowered
  · next name arguments position =>
      obtain ⟨valueCode, evaluated, lowered⟩ := exists_ok_of_bind lowered
      unfold Frame.storage? at lowered
      cases looked : frame.locals.lookup name with
      | some found =>
        rw [looked] at lowered
        cases lowered
        exact simulates_assignVariable evaluated quiet allocated looked placed
      | none =>
        rw [looked] at lowered
        cases owned : frame.owner? name with
        | none => simp [owned] at lowered
        | some owner =>
          rw [owned] at lowered
          cases lowered
          exact simulates_assignField evaluated quiet allocated.nonempty looked owned placed
  · cases lowered

/-- Code for leaving a loop. -/
theorem simulates_leave {label : Label} {target : Nat} {locals : Locals (Option Scalar)}
    (goes : jumpTarget whole label = some target) (placed : Placed whole index [.jump label])
    (setting : Setting V S) :
    primitives.Simulates whole (some label) index [.jump label] locals locals
      ((leave position).exec setting) := by
  intro slots state last completion holds executed
  rw [exec] at executed
  obtain ⟨rfl, rfl⟩ := executed
  refine ⟨_, 0, runs_jump placed.head goes, ⟨label, rfl, goes, stands_of_jumpTarget goes, rfl⟩, rfl,
    ?_, nofun⟩
  rw [Locals.withoutLatest_zero]
  exact holds

/-- Code for an expression evaluated for its effect. -/
theorem simulates_eval (nonempty : frame.locals.scopes ≠ []) (lowered : value.lower frame = .ok code)
    (quiet : value.writesOnTop = true) (placed : Placed whole index (evalCode value code)) :
    primitives.Simulates whole exit? index (evalCode value code) frame.locals frame.locals
      ((eval value position).exec (primitives.settingOf frame)) := by
  rw [exec]
  unfold Expr.perform
  by_cases writes : value.isWrite = true
  · rw [evalCode, if_pos writes] at placed ⊢
    obtain ⟨types, arguments, place, place', rfl⟩ := Expr.exists_of_isWrite writes
    -- Only calls with one argument have code.
    rcases arguments with _ | ⟨argument, _ | ⟨second, rest⟩⟩
    · cases lowered
    · rw [Expr.lower, if_pos rfl] at lowered
      obtain ⟨argumentCode, evaluated, result⟩ := exists_ok_of_bind lowered
      cases result
      have quiet' : argument.writeFree = true := by
        simpa [Expr.writesOnTop, Expr.writeFree, Expr.writeFreeList] using quiet
      exact simulates_effect evaluated quiet' nonempty _ (fun _ _ _ _ => rfl) placed
    · cases lowered
  · rw [evalCode, if_neg writes] at placed ⊢
    obtain ⟨silent, quiet'⟩ := Expr.quiet_of_not_isWrite writes quiet
    simp only [silent]
    exact simulates_effect lowered quiet' nonempty _ (fun _ _ _ _ => rfl) placed

end Single

end Primitives

/-! ## All statements -/

section Statements

variable {primitives : Primitives V S} {exit? : Option Label} {emitter final : Emitter}
  {block : List Stmt} {code : List Instruction}

theorem Emitter.Grows.settingOf (grows : emitter.Grows final) (primitives : Primitives V S) :
    primitives.settingOf final.frame = primitives.settingOf emitter.frame := by
  rw [Primitives.settingOf, Primitives.settingOf, grows.program, grows.decl]

theorem settingOf_enter (primitives : Primitives V S) (emitter : Emitter) :
    primitives.settingOf emitter.enter.frame = primitives.settingOf emitter.frame := rfl

namespace Stmt

/-- Placed code of statements simulates them. -/
theorem Emits.simulates {whole : List Instruction} {index : Nat}
    (emits : Emits exit? emitter block code final) (allocated : emitter.frame.locals.Allocated)
    (onTop : blockWritesOnTop block = true) (placed : Placed whole index code)
    (exits : ∀ label, exit? = some label → ∃ target, jumpTarget whole label = some target) :
    primitives.Simulates whole exit? index code emitter.frame.locals final.frame.locals
      (execBlock (primitives.settingOf emitter.frame) block) := by
  induction emits generalizing index with
  | nothing => exact simulates_nothing _
  | sequence one two first second =>
    rw [blockWritesOnTop, Bool.and_eq_true] at onTop
    have grows := one.grows allocated.nonempty
    have here := first allocated (by simp [blockWritesOnTop, onTop.1]) placed.left exits
    have there := second (one.allocated allocated) onTop.2 (placed.right rfl) exits
    rw [execBlock_singleton] at here
    rw [grows.settingOf] at there
    exact here.sequence there (two.grows grows.nonempty).scopes
  | declare lowered =>
    rw [execBlock_singleton]
    rw [blockWritesOnTop, writesOnTop, Bool.and_eq_true] at onTop
    exact simulates_declare lowered onTop.1 allocated placed
  | assign lowered =>
    rw [execBlock_singleton]
    simp only [blockWritesOnTop, writesOnTop, Bool.and_eq_true] at onTop
    exact simulates_assign allocated lowered onTop.1.2 placed
  | branch lowered taken ih =>
    rw [execBlock_singleton, exec]
    simp only [blockWritesOnTop, writesOnTop, Bool.and_eq_true] at onTop
    have grows := taken.grows (cons_ne_nil _ _)
    refine Simulates.of_scopes (simulates_branch allocated.nonempty ?_ placed
      ?_ ?_) rfl (grows.exit_scopes allocated.nonempty)
    · exact fun _ _ _ holds => (Expr.emits_lower lowered).computes holds onTop.1.1
    · exact fun placed => (ih allocated.enter onTop.1.2 placed exits).enclosed grows.scopes
    · exact fun _ => simulates_nothing _
  | alternative lowered taken otherwise ih ih' =>
    rw [execBlock_singleton, exec]
    simp only [blockWritesOnTop, writesOnTop, Bool.and_eq_true] at onTop
    have grows := taken.grows (cons_ne_nil _ _)
    have grows' := otherwise.grows (cons_ne_nil _ _)
    have scopes := grows.exit_scopes allocated.nonempty
    have allocated' := (taken.allocated allocated.enter).exit
    refine Simulates.of_scopes (simulates_branch allocated.nonempty ?_ placed
      ?_ ?_) rfl ((grows'.exit_scopes allocated'.nonempty).trans scopes)
    · exact fun _ _ _ holds => (Expr.emits_lower lowered).computes holds onTop.1.1.1
    · exact fun placed => (ih allocated.enter onTop.1.1.2 placed exits).enclosed grows.scopes
    · intro index placed
      have inner := (ih' allocated'.enter onTop.1.2 placed exits).enclosed grows'.scopes
      rw [settingOf_enter, (grows.block allocated.nonempty).settingOf] at inner
      exact inner.of_scopes scopes.symm scopes.symm
  | loop lowered repeated ih =>
    rw [execBlock_singleton, exec]
    simp only [blockWritesOnTop, writesOnTop, Bool.and_eq_true] at onTop
    have grows := repeated.grows (cons_ne_nil _ _)
    refine Simulates.of_scopes (simulates_loop allocated.nonempty ?_
      grows.scopes placed ?_) rfl (grows.exit_scopes allocated.nonempty)
    · exact fun _ _ _ holds => (Expr.emits_lower lowered).computes holds onTop.1.1
    · intro index inside
      refine ih allocated.enter onTop.1.2 inside ?_
      rintro label ⟨⟩
      exact placed.exists_target (by simp [loopCode])
  | ret lowered =>
    rw [execBlock_singleton]
    simp only [blockWritesOnTop, writesOnTop, Bool.and_eq_true] at onTop
    exact simulates_ret lowered onTop.1 allocated.nonempty placed
  | leave =>
    rw [execBlock_singleton]
    obtain ⟨target, goes⟩ := exits _ rfl
    exact simulates_leave goes placed _
  | eval lowered =>
    rw [execBlock_singleton]
    simp only [blockWritesOnTop, writesOnTop, Bool.and_eq_true] at onTop
    exact simulates_eval allocated.nonempty lowered onTop.1 placed

/-- Whenever statements terminate, their code does the same on the machine, whatever the primitive
instructions mean and whatever code stands around it: it writes out the same values, leaves the same
fields and the same values of visible variables, and ends as the statements complete. The code around
it must not use the labels that were taken for it, and must have the label behind the innermost loop
if there is one. -/
theorem reaches_lowerBlock {before after : List Instruction}
    (lowered : lowerBlock exit? emitter block = .ok (code, final))
    (onTop : blockWritesOnTop block = true) (reached : emitter.frame.locals.Reached)
    (fresh : ∀ number, emitter.nextLabel ≤ number → number < final.nextLabel →
      Label.numbered number ∉ labelsIn (before ++ after))
    (exits : ∀ label, exit? = some label → label ∈ labelsIn (before ++ after))
    {slots : Nat → Option V} {state last : State V S} {completion : Completion V}
    (holds : Holds slots emitter.frame.locals state.environment)
    (executed : execBlock (primitives.settingOf emitter.frame) block state completion last) :
    primitives.Reaches (before ++ code ++ after) exit? (before.length + code.length)
      final.frame.locals ⟨before.length, [], slots, state.world⟩ completion last := by
  have emits := emits_lowerBlock block lowered
  have placed : Placed (before ++ code ++ after) before.length code := by
    refine placed_of_fresh emits.numbered.distinct fun label member => ?_
    obtain ⟨number, low, high, rfl⟩ := emits.numbered.exists_number member
    have new := fresh number low high
    rw [labelsIn_append, List.mem_append, not_or] at new
    exact new
  refine emits.simulates reached.allocated onTop placed ?_ slots state last completion holds executed
  intro label isExit
  have member := exits label isExit
  refine exists_jumpTarget ?_
  simp only [labelsIn_append, List.mem_append] at member ⊢
  exact member.elim (fun inBefore => .inl (.inl inBefore)) .inr

end Stmt

end Statements

/-- Truth values, of which only constants and tests have a meaning. -/
def truthPrimitives : Primitives Bool Unit where
  constant
    | .bool value => some value
    | _ => none
  self := false
  binary _ _ _ := none
  widen _ := none
  narrow _ := none
  truth := some
  readField _ _ _ _ := none
  writeField _ _ _ _ _ := none

/-- A loop in which a variable is shadowed, written out and then the loop is left, before the outer
variable is returned. -/
def shadowingLoop : List Stmt :=
  let here : Position := ⟨1, 1⟩
  [.declare "x" (.bool true here) here,
   .loop (.bool true here)
     [.declare "x" (.bool false here) here,
      .eval (.call (.ident writeRoutine [] here) [.ident "x" [] here] here) here,
      .leave here] here,
   .ret (.ident "x" [] here) here]

/-- The start of a method without parameters in a program without classes. -/
def blankEmitter : Emitter := ⟨⟨⟨[]⟩, ⟨"A", none, [], [], ⟨1, 1⟩⟩, .ofParams []⟩, 0⟩

/-- The inner variable is written out and the outer one is returned, by the statements and by their
code. -/
theorem Stmt.reaches_shadowingLoop : ∃ code final last,
    lowerBlock none blankEmitter shadowingLoop = .ok (code, final) ∧
    execBlock (truthPrimitives.settingOf blankEmitter.frame) shadowingLoop
      ⟨⟨[[]]⟩, ⟨(), []⟩⟩ (.returned true) last ∧
    last.world.written = [false] ∧
    truthPrimitives.Reaches ([] ++ code ++ [.ret]) none (0 + code.length) final.frame.locals
      ⟨0, [], fun _ => none, ⟨(), []⟩⟩ (.returned true) last := by
  let outer : List (String × Typed Bool) := [("x", ⟨some .bool, true⟩)]
  let inner : List (String × Typed Bool) := [("x", ⟨some .bool, false⟩)]
  have round : (Meaning.enclosed (execBlock (truthPrimitives.settingOf blankEmitter.frame)
      [.declare "x" (.bool false ⟨1, 1⟩) ⟨1, 1⟩,
       .eval (.call (.ident writeRoutine [] ⟨1, 1⟩) [.ident "x" [] ⟨1, 1⟩] ⟨1, 1⟩) ⟨1, 1⟩,
       .leave ⟨1, 1⟩])) ⟨⟨[outer]⟩, ⟨(), []⟩⟩ .left ⟨⟨[outer]⟩, ⟨(), [false]⟩⟩ :=
    ⟨⟨⟨[inner, outer]⟩, ⟨(), [false]⟩⟩,
      .inl ⟨⟨⟨[inner, outer]⟩, ⟨(), []⟩⟩, ⟨rfl, rfl⟩,
        .inl ⟨⟨⟨[inner, outer]⟩, ⟨(), [false]⟩⟩, ⟨rfl, rfl⟩, .inr ⟨nofun, rfl, rfl⟩⟩⟩, rfl⟩
  have executed : execBlock (truthPrimitives.settingOf blankEmitter.frame) shadowingLoop
      ⟨⟨[[]]⟩, ⟨(), []⟩⟩ (.returned true) ⟨⟨[outer]⟩, ⟨(), [false]⟩⟩ :=
    .inl ⟨⟨⟨[outer]⟩, ⟨(), []⟩⟩, ⟨rfl, rfl⟩,
      .inl ⟨⟨⟨[outer]⟩, ⟨(), [false]⟩⟩, .left rfl round, .inr ⟨nofun, rfl, rfl⟩⟩⟩
  have holds : Holds (fun _ => none) blankEmitter.frame.locals (⟨[[]]⟩ : Environment Bool) :=
    List.Forall₂.cons .nil .nil
  refine ⟨_, _, _, rfl, executed, rfl, ?_⟩
  refine reaches_lowerBlock rfl rfl (.start []) ?_ ?_ holds executed
  · intro number _ _ member
    cases member
  · intro label isExit
    cases isExit

end ClassLang
