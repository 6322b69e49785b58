import ClassLang.Proofs.Machine

/-! # Code in its place

`Placed whole index code` says that some code stands at an index of the whole code, and that jumps to
its labels find them there; every part of placed code is placed. `Yields` says what a stretch of code
without jumps does: it pushes a value and goes on, or it traps without having changed anything. -/

namespace ClassLang

/-- Code stands at an index of the whole code, and the labels in it are found where they stand. -/
structure Placed (whole : List Instruction) (index : Nat) (code : List Instruction) : Prop where
  /-- Every instruction stands where it should. -/
  stands : ∀ offset instruction, code[offset]? = some instruction →
    whole[index + offset]? = some instruction
  /-- Every label is found where it stands. -/
  resolves : ∀ offset label, code[offset]? = some (.label label) →
    jumpTarget whole label = some (index + offset)

namespace Placed

variable {whole first second code : List Instruction} {index next : Nat} {instruction : Instruction}

/-- The first part of placed code is placed. -/
theorem left (placed : Placed whole index (first ++ second)) : Placed whole index first := by
  have inside : ∀ {offset : Nat} {instruction}, first[offset]? = some instruction →
      (first ++ second)[offset]? = some instruction := by
    intro offset instruction found
    obtain ⟨bound, _⟩ := List.getElem?_eq_some_iff.mp found
    rw [List.getElem?_append_left bound, found]
  exact ⟨fun offset _ found => placed.stands offset _ (inside found),
    fun offset _ found => placed.resolves offset _ (inside found)⟩

/-- The second part of placed code is placed behind the first. -/
theorem right (placed : Placed whole index (first ++ second)) (behind : index + first.length = next) :
    Placed whole next second := by
  have inside : ∀ {offset : Nat} {instruction}, second[offset]? = some instruction →
      (first ++ second)[first.length + offset]? = some instruction := by
    intro offset instruction found
    rw [List.getElem?_append_right (Nat.le_add_right ..), Nat.add_sub_cancel_left, found]
  subst behind
  refine ⟨fun offset _ found => ?_, fun offset _ found => ?_⟩
  · rw [Nat.add_assoc]
    exact placed.stands _ _ (inside found)
  · rw [Nat.add_assoc]
    exact placed.resolves _ _ (inside found)

/-- The first instruction stands at the index. -/
theorem head (placed : Placed whole index (instruction :: code)) :
    whole[index]? = some instruction :=
  placed.stands 0 instruction rfl

/-- Behind its first instruction placed code is placed. -/
theorem tail (placed : Placed whole index (instruction :: code)) (behind : index + 1 = next) :
    Placed whole next code := by
  change Placed whole index ([instruction] ++ code) at placed
  exact placed.right behind

/-- A jump to a label in front of placed code goes to the index. -/
theorem target {label : Label} (placed : Placed whole index (.label label :: code)) :
    jumpTarget whole label = some index :=
  placed.resolves 0 label rfl

end Placed

namespace Configuration

variable {V S : Type}

variable (configuration : Configuration V S)

/-- Only the last place gone to counts. -/
@[simp] theorem goto_goto (middle next : Nat) (stack rest : List V) :
    (configuration.goto middle stack).goto next rest = configuration.goto next rest := rfl

/-- To advance is to go on at the next index. -/
theorem advance_eq_goto (stack : List V) :
    configuration.advance stack = configuration.goto (configuration.counter + 1) stack := rfl

end Configuration

namespace Primitives

variable {V S : Type} {primitives : Primitives V S} {whole code : List Instruction}
  {instruction : Instruction} {start middle final : Configuration V S} {rest : List V}

/-! ## Runs -/

/-- Runs can be continued. -/
theorem Runs.trans (first : primitives.Runs whole start middle)
    (second : primitives.Runs whole middle final) : primitives.Runs whole start final :=
  Relation.ReflTransGen.trans first second

/-- An instruction that is executed is a run. -/
theorem runs_of_execute (found : whole[start.counter]? = some instruction)
    (executed : primitives.execute whole start instruction = some final) :
    primitives.Runs whole start final :=
  Relation.ReflTransGen.single (by rw [step, found, Option.bind_some, executed])

/-- The machine runs into a trap without a change to slots and world. -/
def Fails (primitives : Primitives V S) (whole : List Instruction)
    (start : Configuration V S) : Prop :=
  ∃ final, primitives.Runs whole start final ∧ primitives.Traps whole final ∧
    final.slots = start.slots ∧ final.world = start.world

/-- From a configuration, code pushes a value onto a stack and goes on at an index, or it traps if
there is no value. -/
def Yields (primitives : Primitives V S) (whole : List Instruction) (start : Configuration V S)
    (next : Nat) (rest : List V) : Option V → Prop
  | some value => primitives.Runs whole start (start.goto next (value :: rest))
  | none => primitives.Fails whole start

/-- Code that pushes a value can be followed by code that uses it. -/
theorem Yields.bind {behind next : Nat} {rest' : List V} {value? : Option V} {use : V → Option V}
    (first : primitives.Yields whole start behind rest value?)
    (second : ∀ value, value? = some value →
      primitives.Yields whole (start.goto behind (value :: rest)) next rest' (use value)) :
    primitives.Yields whole start next rest' (value?.bind use) := by
  cases value? with
  | none => exact first
  | some value =>
    have follow := second value rfl
    rw [Option.bind_some]
    cases result : use value with
    | some outcome =>
      rw [result] at follow
      exact Runs.trans first follow
    | none =>
      rw [result] at follow
      obtain ⟨final, runs, traps, slots, world⟩ := follow
      exact ⟨final, Runs.trans first runs, traps, slots, world⟩

/-- An instruction that pushes a value or traps. -/
theorem yields_of_execute {value? : Option V} (found : whole[start.counter]? = some instruction)
    (stays : instruction.isRet = false) (executed : primitives.execute whole start instruction =
      value?.map fun value => start.advance (value :: rest)) :
    primitives.Yields whole start (start.counter + 1) rest value? := by
  cases value? with
  | some value => exact runs_of_execute found executed
  | none => exact ⟨start, .refl, ⟨instruction, found, stays, executed⟩, rfl, rfl⟩

/-! ## Single instructions -/

/-- A constant is pushed, if it has a value. -/
theorem yields_const {value : Constant} (found : whole[start.counter]? = some (.const value)) :
    primitives.Yields whole start (start.counter + 1) start.stack (primitives.constant value) := by
  refine yields_of_execute found rfl ?_
  cases held : primitives.constant value <;> simp [execute, held]

/-- What a slot holds is pushed. -/
theorem yields_loadLocal {slot : Nat} (found : whole[start.counter]? = some (.loadLocal slot)) :
    primitives.Yields whole start (start.counter + 1) start.stack (start.slots slot) := by
  refine yields_of_execute found rfl ?_
  cases held : start.slots slot <;> simp [execute, held]

/-- The object itself is pushed. -/
theorem yields_loadThis (found : whole[start.counter]? = some .loadThis) :
    primitives.Yields whole start (start.counter + 1) start.stack (some primitives.self) :=
  yields_of_execute found rfl rfl

/-- A field of an object on the stack takes the object's place. -/
theorem yields_loadField {owner field : String} {object : V}
    (found : whole[start.counter]? = some (.loadField owner field))
    (stack : start.stack = object :: rest) :
    primitives.Yields whole start (start.counter + 1) rest
      (primitives.readField owner field object start.world.store) := by
  refine yields_of_execute found rfl ?_
  cases read : primitives.readField owner field object start.world.store <;>
    simp [execute, stack, read]

/-- A widened value takes the place of the value. -/
theorem yields_widen {value : V} (found : whole[start.counter]? = some .widen)
    (stack : start.stack = value :: rest) :
    primitives.Yields whole start (start.counter + 1) rest (primitives.widen value) := by
  refine yields_of_execute found rfl ?_
  cases converted : primitives.widen value <;> simp [execute, stack, converted]

/-- A narrowed value takes the place of the value. -/
theorem yields_narrow {value : V} (found : whole[start.counter]? = some .narrow)
    (stack : start.stack = value :: rest) :
    primitives.Yields whole start (start.counter + 1) rest (primitives.narrow value) := by
  refine yields_of_execute found rfl ?_
  cases converted : primitives.narrow value <;> simp [execute, stack, converted]

/-- The instructions that take two values and push a result. -/
def isBinary : Instruction → Bool
  | .add | .sub | .mul | .rem | .div | .eq | .gt | .lt | .and | .or | .xor => true
  | _ => false

/-- A result takes the place of two values on the stack. -/
theorem yields_binary {first second : V} (binary : isBinary instruction = true)
    (found : whole[start.counter]? = some instruction)
    (stack : start.stack = second :: first :: rest) :
    primitives.Yields whole start (start.counter + 1) rest
      (primitives.binary instruction first second) := by
  cases instruction <;> simp only [isBinary, Bool.false_eq_true] at binary <;>
    refine yields_of_execute found rfl ?_ <;>
    simp only [execute, stack, Option.map_eq_bind] <;> rfl

end Primitives

end ClassLang
