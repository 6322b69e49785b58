import ClassLang.Proofs.Lowering.Expr

/-! # Simulation of statements by code

`Simulates` says of a stretch of code and a meaning that the machine does what the meaning says: it
writes out the same values, leaves the same fields and the same values of visible variables, and ends
as the meaning completes. There is one lemma for each way to put statements together. -/

namespace ClassLang

open Evaluation

variable {V S : Type}

namespace Primitives

/-! ## Simulation -/

/-- Where the machine stands when statements have completed: behind their code, at the label behind
the innermost loop, at a return with the value on the stack, or at a trap. -/
def Ends (primitives : Primitives V S) (whole : List Instruction) (exit? : Option Label)
    (next : Nat) (final : Configuration V S) : Completion V → Prop
  | .normal => final.counter = next ∧ final.stack = []
  | .left => ∃ label, exit? = some label ∧ jumpTarget whole label = some final.counter ∧
      whole[final.counter]? = some (.label label) ∧ final.stack = []
  | .returned value => whole[final.counter]? = some .ret ∧ final.stack = [value]
  | .trapped => primitives.Traps whole final

/-- The machine runs to where a completion says, and then has the world and the visible variables of
a state. Statements that do not complete normally may leave variables undeclared. -/
def Reaches (primitives : Primitives V S) (whole : List Instruction) (exit? : Option Label)
    (next : Nat) (locals : Locals (Option Scalar)) (start : Configuration V S)
    (completion : Completion V) (last : State V S) : Prop :=
  ∃ final pending, primitives.Runs whole start final ∧
    primitives.Ends whole exit? next final completion ∧ final.world = last.world ∧
    Holds final.slots (locals.withoutLatest pending) last.environment ∧
    (completion = .normal → pending = 0)

/-- Code at an index does what a meaning says, from an empty stack. -/
def Simulates (primitives : Primitives V S) (whole : List Instruction) (exit? : Option Label)
    (index : Nat) (code : List Instruction) (before after : Locals (Option Scalar))
    (meaning : Meaning V S) : Prop :=
  ∀ (slots : Nat → Option V) (state last : State V S) (completion : Completion V),
    Holds slots before state.environment → meaning state completion last →
    primitives.Reaches whole exit? (index + code.length) after ⟨index, [], slots, state.world⟩
      completion last

section Reaches

variable {primitives : Primitives V S} {whole : List Instruction} {exit? : Option Label}
  {next : Nat} {locals after : Locals (Option Scalar)} {start middle : Configuration V S}
  {completion : Completion V} {state last : State V S}

theorem reaches_normal {final : Configuration V S} (runs : primitives.Runs whole start final)
    (counter : final.counter = next) (stack : final.stack = []) (world : final.world = last.world)
    (holds : Holds final.slots locals last.environment) :
    primitives.Reaches whole exit? next locals start .normal last :=
  ⟨final, 0, runs, ⟨counter, stack⟩, world, by rwa [Locals.withoutLatest_zero], fun _ => rfl⟩

/-- A run into a trap. -/
theorem reaches_trapped (fails : primitives.Fails whole start) (world : start.world = last.world)
    (holds : Holds start.slots locals last.environment) (adds : locals.Adds after) :
    primitives.Reaches whole exit? next after start .trapped last := by
  obtain ⟨final, runs, traps, sameSlots, sameWorld⟩ := fails
  rw [← locals.withoutLatest_zero] at holds
  obtain ⟨pending, holds⟩ := holds.of_adds adds
  exact ⟨final, pending, runs, traps, sameWorld.trans world, sameSlots ▸ holds, nofun⟩

theorem Reaches.behind (runs : primitives.Runs whole start middle)
    (reaches : primitives.Reaches whole exit? next locals middle completion last) :
    primitives.Reaches whole exit? next locals start completion last := by
  obtain ⟨final, pending, rest, ends⟩ := reaches
  exact ⟨final, pending, runs.trans rest, ends⟩

variable (reaches : primitives.Reaches whole exit? next locals start completion last)

include reaches

/-- Where statements do not complete normally, the code behind them does not matter. -/
theorem Reaches.abrupt {next' : Nat} (notNormal : completion ≠ .normal) (adds : locals.Adds after) :
    primitives.Reaches whole exit? next' after start completion last := by
  obtain ⟨final, pending, runs, ends, world, holds, _⟩ := reaches
  obtain ⟨pending, holds⟩ := holds.of_adds adds
  refine ⟨final, pending, runs, ?_, world, holds, fun normal => absurd normal notNormal⟩
  cases completion with
  | normal => exact absurd rfl notNormal
  | left | returned | trapped => exact ends

/-- Where statements complete normally, the machine can run on. -/
theorem Reaches.onward {next' : Nat} (nonempty : locals.scopes ≠ [])
    (runs : ∀ (slots : Nat → Option V) (world : World V S),
      primitives.Runs whole ⟨next, [], slots, world⟩ ⟨next', [], slots, world⟩) :
    primitives.Reaches whole exit? next' locals start completion last := by
  by_cases normal : completion = .normal
  · subst normal
    obtain ⟨⟨counter, stack, slots, world⟩, pending, ran, ⟨here, empty⟩, sameWorld, holds, none⟩ :=
      reaches
    obtain rfl : counter = next := here
    obtain rfl : stack = [] := empty
    rw [none rfl, Locals.withoutLatest_zero] at holds
    exact reaches_normal (ran.trans (runs slots world)) rfl rfl sameWorld holds
  · exact reaches.abrupt normal (.refl nonempty)

/-- Only the scopes matter. -/
theorem Reaches.of_scopes (same : after.scopes = locals.scopes) :
    primitives.Reaches whole exit? next after start completion last := by
  obtain ⟨final, pending, runs, ends, world, holds, normal⟩ := reaches
  refine ⟨final, pending, runs, ends, world, holds.of_scopes ?_, normal⟩
  simp only [Locals.withoutLatest, same]
  split <;> simp_all

end Reaches

/-! ## Blocks -/

section Blocks

variable {primitives : Primitives V S} {whole : List Instruction} {exit? : Option Label}
  {index : Nat} {code more : List Instruction} {before middle after : Locals (Option Scalar)}
  {first second meaning : Meaning V S}

theorem simulates_nothing (locals : Locals (Option Scalar)) :
    primitives.Simulates whole exit? index [] locals locals (.complete .normal) := by
  rintro slots state last completion holds ⟨rfl, rfl⟩
  exact reaches_normal .refl rfl rfl rfl holds

/-- Code for one statement after the other. -/
theorem Simulates.sequence (one : primitives.Simulates whole exit? index code before middle first)
    (two : primitives.Simulates whole exit? (index + code.length) more middle after second)
    (adds : middle.Adds after) :
    primitives.Simulates whole exit? index (code ++ more) before after (first.sequence second) := by
  rintro slots state last completion holds (⟨between, ran, rest⟩ | ⟨notNormal, stopped⟩)
  · obtain ⟨final, pending, runs, ⟨counter, stack⟩, world, held, noPending⟩ :=
      one slots state between .normal holds ran
    obtain ⟨finalCounter, finalStack, finalSlots, finalWorld⟩ := final
    obtain rfl : finalCounter = index + code.length := counter
    obtain rfl : finalStack = [] := stack
    obtain rfl : finalWorld = between.world := world
    rw [noPending rfl, Locals.withoutLatest_zero] at held
    rw [List.length_append, ← Nat.add_assoc]
    exact (two finalSlots between last completion held rest).behind runs
  · exact (one slots state last completion holds stopped).abrupt notNormal adds

/-- After statements in a scope of their own, the variables around them are held, however the
statements complete. -/
theorem Simulates.closes
    (inner : primitives.Simulates whole exit? index code before.enter after meaning)
    (adds : before.enter.Adds after) {slots : Nat → Option V} {state last : State V S}
    {completion : Completion V} (holds : Holds slots before state.environment)
    (ran : meaning.enclosed state completion last) :
    ∃ final, primitives.Runs whole ⟨index, [], slots, state.world⟩ final ∧
      primitives.Ends whole exit? (index + code.length) final completion ∧
      final.world = last.world ∧ Holds final.slots before last.environment := by
  obtain ⟨last, ran, rfl⟩ := ran
  obtain ⟨final, pending, runs, ends, world, held, _⟩ :=
    inner slots state.enter last completion holds.enter ran
  exact ⟨final, runs, ends, world, held.leave adds⟩

/-- Code for statements in a scope of their own. -/
theorem Simulates.enclosed
    (inner : primitives.Simulates whole exit? index code before.enter after meaning)
    (adds : before.enter.Adds after) :
    primitives.Simulates whole exit? index code before before meaning.enclosed := by
  intro slots state last completion holds ran
  obtain ⟨final, runs, ends, world, held⟩ := inner.closes adds holds ran
  exact ⟨final, 0, runs, ends, world, by rwa [Locals.withoutLatest_zero], fun _ => rfl⟩

/-- Only the scopes matter. -/
theorem Simulates.of_scopes {before' after' : Locals (Option Scalar)}
    (simulates : primitives.Simulates whole exit? index code before after meaning)
    (same : before'.scopes = before.scopes) (same' : after'.scopes = after.scopes) :
    primitives.Simulates whole exit? index code before' after' meaning := by
  intro slots state last completion holds ran
  exact (simulates slots state last completion (holds.of_scopes same.symm) ran).of_scopes same'

end Blocks

/-! ## Branches and loops -/

section Tests

variable {primitives : Primitives V S} {whole code : List Instruction} {exit? : Option Label}
  {index target : Nat} {frame : Frame} {environment : Environment V} {test : Expr}
  {slots : Nat → Option V} {world : World V S} {label : Label}

/-- A test lets the machine go on or sends it to a target, or the machine traps. -/
def Decides (primitives : Primitives V S) (whole : List Instruction) (start : Configuration V S)
    (next target : Nat) : Option Bool → Prop
  | some true => primitives.Runs whole start (start.goto next start.stack)
  | some false => primitives.Runs whole start (start.goto target start.stack)
  | none => primitives.Fails whole start

/-- A run can be put in front of a test. -/
theorem Decides.behind {start middle : Configuration V S} {next target : Nat}
    {outcome? : Option Bool} (decides : primitives.Decides whole middle next target outcome?)
    {counter : Nat} (runs : primitives.Runs whole start (start.goto counter start.stack))
    (same : middle = start.goto counter start.stack) :
    primitives.Decides whole start next target outcome? := by
  subst same
  cases outcome? with
  | none =>
    obtain ⟨final, rest, traps⟩ := decides
    exact ⟨final, runs.trans rest, traps⟩
  | some outcome => cases outcome <;> exact Runs.trans runs decides

/-- The code of a test, followed by a conditional jump. -/
theorem Computes.decides (computes : primitives.Computes whole slots world code
      (test.eval (primitives.settingOf frame) environment))
    (goes : jumpTarget whole label = some target) :
    ∃ outcome?, test.test (primitives.settingOf frame) environment world =
        ofOption outcome? world ∧
      ∀ start : Configuration V S, start.slots = slots → start.world = world →
        Placed whole start.counter code →
        whole[start.counter + code.length]? = some (.jumpIfFalse label) →
        primitives.Decides whole start (start.counter + code.length + 1) target outcome? := by
  obtain ⟨value?, evaluated, yields⟩ := computes
  refine ⟨value?.bind primitives.truth, ?_, ?_⟩
  · exact bind_ofOption evaluated fun value => rfl
  intro start sameSlots sameWorld placed jumps
  have pushed := yields start sameSlots sameWorld placed
  cases value? with
  | none => exact pushed
  | some value =>
    change primitives.Decides whole start _ target (primitives.truth value)
    cases decided : primitives.truth value with
    | none =>
      refine ⟨_, pushed, ⟨_, jumps, rfl, ?_⟩, rfl, rfl⟩
      simp [execute, decided]
    | some outcome =>
      have executed : primitives.execute whole
          (start.goto (start.counter + code.length) (value :: start.stack)) (.jumpIfFalse label) =
          some (start.goto (if outcome then start.counter + code.length + 1 else target)
            start.stack) := by
        cases outcome <;> simp [execute, decided, goes, Configuration.advance_eq_goto]
      have runs := Runs.trans pushed (runs_of_execute jumps executed)
      cases outcome with
      | true => exact runs
      | false => exact runs

theorem runs_label {start : Configuration V S} (found : whole[start.counter]? = some (.label label)) :
    primitives.Runs whole start (start.goto (start.counter + 1) start.stack) :=
  runs_of_execute found rfl

theorem runs_jump {start : Configuration V S} (found : whole[start.counter]? = some (.jump label))
    (goes : jumpTarget whole label = some target) :
    primitives.Runs whole start (start.goto target start.stack) :=
  runs_of_execute found (by simp [execute, goes])

variable {testCode bodyCode alternativeCode : List Instruction} {first second : Label}
  {locals inner : Locals (Option Scalar)} {taken otherwise repeated : Meaning V S}

variable (nonempty : locals.scopes ≠ [])
  (computes : ∀ slots environment world, Holds slots locals environment →
    primitives.Computes whole slots world testCode
      (test.eval (primitives.settingOf frame) environment))

include nonempty computes

/-- Code for a branch. -/
theorem simulates_branch
    (placed : Placed whole index (branchCode first second testCode bodyCode alternativeCode))
    (body : ∀ {index}, Placed whole index bodyCode →
      primitives.Simulates whole exit? index bodyCode locals locals taken)
    (alternative : ∀ {index}, Placed whole index alternativeCode →
      primitives.Simulates whole exit? index alternativeCode locals locals otherwise) :
    primitives.Simulates whole exit? index
      (branchCode first second testCode bodyCode alternativeCode) locals locals
      (.evaluate (test.test (primitives.settingOf frame))
        fun holds => if holds then taken else otherwise) := by
  have length : (branchCode first second testCode bodyCode alternativeCode).length =
      testCode.length + 1 + bodyCode.length + 1 + 1 + alternativeCode.length + 1 := by
    simp [branchCode]
    omega
  rw [branchCode] at placed
  simp only [List.append_assoc, List.cons_append, List.nil_append] at placed
  have atJump := placed.right rfl
  have atBody := atJump.tail rfl
  have atLeave := atBody.right rfl
  have atFirst := atLeave.tail rfl
  have atAlternative := atFirst.tail rfl
  have atSecond := atAlternative.right rfl
  intro slots state last completion holds executed
  obtain ⟨outcome?, tested, decides⟩ :=
    (computes slots state.environment state.world holds).decides atFirst.target
  have decides := decides ⟨index, [], slots, state.world⟩ rfl rfl placed.left atJump.head
  rw [Meaning.evaluate, tested] at executed
  simp only [length, ← Nat.add_assoc]
  cases outcome? with
  | none =>
    obtain ⟨rfl, rfl⟩ := executed
    exact reaches_trapped decides rfl holds (.refl nonempty)
  | some outcome =>
    cases outcome with
    | true =>
      have reaches := body atBody.left slots state last completion holds executed
      refine (reaches.onward nonempty fun slots world => ?_).behind decides
      exact (runs_jump atLeave.head atSecond.target).trans (runs_label atSecond.head)
    | false =>
      have reaches := alternative atAlternative.left slots state last completion holds executed
      refine ((reaches.onward nonempty fun slots world => ?_).behind
        (runs_label atFirst.head)).behind decides
      exact runs_label atSecond.head

/-- Code for a loop. -/
theorem simulates_loop (adds : locals.enter.Adds inner)
    (placed : Placed whole index (loopCode first second testCode bodyCode))
    (body : ∀ {index}, Placed whole index bodyCode →
      primitives.Simulates whole (some second) index bodyCode locals.enter inner repeated) :
    primitives.Simulates whole exit? index (loopCode first second testCode bodyCode) locals locals
      (.Iterate (test.test (primitives.settingOf frame)) repeated.enclosed) := by
  have length : (loopCode first second testCode bodyCode).length =
      1 + testCode.length + 1 + bodyCode.length + 1 + 1 := by
    simp [loopCode]
    omega
  rw [loopCode] at placed
  simp only [List.append_assoc, List.cons_append, List.nil_append] at placed
  have atTest := placed.tail rfl
  have atJump := atTest.right rfl
  have atBody := atJump.tail rfl
  have atBack := atBody.right rfl
  have atEnd := atBack.tail rfl
  have round {slots : Nat → Option V} {state : State V S}
      (holds : Holds slots locals state.environment) :
      ∃ outcome?, test.test (primitives.settingOf frame) state.environment state.world =
          ofOption outcome? state.world ∧
        primitives.Decides whole ⟨index, [], slots, state.world⟩ (index + 1 + testCode.length + 1)
          (index + 1 + testCode.length + 1 + bodyCode.length + 1) outcome? := by
    obtain ⟨outcome?, tested, decides⟩ :=
      (computes slots state.environment state.world holds).decides atEnd.target
    refine ⟨outcome?, tested, Decides.behind ?_ (runs_label placed.head) rfl⟩
    exact decides ⟨index + 1, [], slots, state.world⟩ rfl rfl atTest.left atJump.head
  intro slots state last completion holds executed
  simp only [length, ← Nat.add_assoc]
  -- The induction is on the number of rounds; each round starts at the first label.
  induction executed generalizing slots with
  | done tested =>
    obtain ⟨outcome?, evaluated, decides⟩ := round holds
    obtain ⟨rfl, rfl⟩ := ofOption_eq_ok (evaluated ▸ tested)
    exact reaches_normal (Runs.trans decides (runs_label atEnd.head)) rfl rfl rfl holds
  | trap tested =>
    obtain ⟨outcome?, evaluated, decides⟩ := round holds
    obtain ⟨rfl, rfl⟩ := ofOption_eq_error (evaluated ▸ tested)
    exact reaches_trapped decides rfl holds (.refl nonempty)
  | again tested once rest ih =>
    obtain ⟨outcome?, evaluated, decides⟩ := round holds
    obtain ⟨rfl, rfl⟩ := ofOption_eq_ok (evaluated ▸ tested)
    obtain ⟨⟨counter, stack, slots', world⟩, runs, ⟨here, empty⟩, sameWorld, held⟩ :=
      (body atBody.left).closes adds holds once
    cases here
    cases empty
    cases sameWorld
    have back := runs.trans (runs_jump atBack.head placed.target)
    exact ((ih slots' held).behind back).behind decides
  | left tested once =>
    obtain ⟨outcome?, evaluated, decides⟩ := round holds
    obtain ⟨rfl, rfl⟩ := ofOption_eq_ok (evaluated ▸ tested)
    obtain ⟨final, runs, ⟨label, same, goes, stands, empty⟩, sameWorld, held⟩ :=
      (body atBody.left).closes adds holds once
    cases same
    obtain here : final.counter = _ := Option.some.inj (goes.symm.trans atEnd.target)
    have passed := runs.trans (runs_label stands)
    refine (reaches_normal passed ?_ empty sameWorld held).behind decides
    rw [Configuration.goto_counter, here]
  | stop tested once notNormal notLeft =>
    obtain ⟨outcome?, evaluated, decides⟩ := round holds
    obtain ⟨rfl, rfl⟩ := ofOption_eq_ok (evaluated ▸ tested)
    obtain ⟨final, runs, ends, sameWorld, held⟩ := (body atBody.left).closes adds holds once
    rw [← locals.withoutLatest_zero] at held
    refine Reaches.behind decides ⟨final, 0, runs, ?_, sameWorld, held, fun _ => rfl⟩
    rename_i completion
    cases completion with
    | normal => exact absurd rfl notNormal
    | left => exact absurd rfl notLeft
    | returned | trapped => exact ends

end Tests

end Primitives

end ClassLang
