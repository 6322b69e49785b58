import ClassLang.Proofs.Machine.Labels

/-! # Depths of the stack

Code keeps its stack in order if every index can be given a depth that fits all ways through the
code. Then the stack of every run holds as many values as the depth of the index it stands at, so no
instruction lacks the values that it takes. -/

namespace ClassLang

/-! ## Effects of instructions -/

namespace Instruction

/-- How many values an instruction takes from the stack. -/
def pops : Instruction → Nat
  | const _ | loadLocal _ | loadThis | label _ | jump _ | ret => 0
  | storeLocal _ | loadField _ _ | widen | narrow | jumpIfFalse _ | pop => 1
  | storeField _ _ => 2
  | call _ count => count
  | add | sub | mul | rem | div | eq | gt | lt | and | or | xor => 2

/-- How many values an instruction puts on the stack. -/
def pushes : Instruction → Nat
  | const _ | loadLocal _ | loadThis | loadField _ _ | widen | narrow => 1
  | add | sub | mul | rem | div | eq | gt | lt | and | or | xor => 1
  | storeLocal _ | storeField _ _ | label _ | jump _ | jumpIfFalse _ | call _ _ | pop | ret => 0

/-- Whether control can go on to the next instruction. -/
def goesOn : Instruction → Bool
  | jump _ | ret => false
  | _ => true

end Instruction

/-- The ways of control from one index of code to another. -/
inductive Flows (code : List Instruction) : Nat → Nat → Prop
  | next {index instruction} (stands : code[index]? = some instruction)
      (goesOn : instruction.goesOn = true) : Flows code index (index + 1)
  | jump {index target label} (stands : code[index]? = some (.jump label))
      (place : code[target]? = some (.label label)) : Flows code index target
  | branch {index target label} (stands : code[index]? = some (.jumpIfFalse label))
      (place : code[target]? = some (.label label)) : Flows code index target

/-- A depth of the stack for each index of code that fits all ways through the code. -/
structure StackDepths (code : List Instruction) (depth : Nat → Nat) : Prop where
  start : depth 0 = 0
  /-- Every instruction has the values that it takes. -/
  enough : ∀ {index : Nat} {instruction : Instruction}, code[index]? = some instruction →
    instruction.pops ≤ depth index
  /-- Depths change as instructions say. -/
  flows : ∀ {index next : Nat} {instruction : Instruction}, code[index]? = some instruction →
    Flows code index next → depth next = depth index - instruction.pops + instruction.pushes
  label : ∀ {index : Nat} {label : Label}, code[index]? = some (.label label) → depth index = 0
  jump : ∀ {index : Nat} {label : Label}, code[index]? = some (.jump label) → depth index = 0
  /-- The stack holds at most one value at every return. -/
  ret : ∀ {index : Nat}, code[index]? = some .ret → depth index ≤ 1

/-! ## Runs -/

namespace Primitives

variable {V S : Type} {primitives : Primitives V S} {code : List Instruction}

/-- An instruction with a result finds the values that it takes, and goes one of the ways of
control. -/
theorem flows_of_step {before after : Configuration V S}
    (stepped : primitives.step code before = some after) :
    ∃ instruction, code[before.counter]? = some instruction ∧
      instruction.pops ≤ before.stack.length ∧ Flows code before.counter after.counter ∧
      after.stack.length = before.stack.length - instruction.pops + instruction.pushes := by
  obtain ⟨instruction, stands, executed⟩ := Option.bind_eq_some_iff.mp stepped
  refine ⟨instruction, stands, ?_⟩
  -- an instruction has a result only if the stack has the shape it asks for
  obtain ⟨counter, stack, slots, world⟩ := before
  cases instruction with
  | const value | loadLocal slot =>
    obtain ⟨value, _, result⟩ := Option.bind_eq_some_iff.mp executed
    cases result
    exact ⟨Nat.zero_le _, .next stands rfl, rfl⟩
  | loadThis | label place =>
    cases executed
    exact ⟨Nat.zero_le _, .next stands rfl, rfl⟩
  | ret => cases executed
  | jump target =>
    obtain ⟨index, goes, result⟩ := Option.bind_eq_some_iff.mp executed
    cases result
    exact ⟨Nat.zero_le _, .jump stands (stands_of_jumpTarget goes), rfl⟩
  | storeLocal slot | pop =>
    rcases stack with _ | ⟨value, rest⟩
    · cases executed
    · cases executed
      exact ⟨Nat.le_add_left 1 _, .next stands rfl, rfl⟩
  | loadField owner field | widen | narrow =>
    rcases stack with _ | ⟨value, rest⟩
    · cases executed
    · obtain ⟨value, _, result⟩ := Option.bind_eq_some_iff.mp executed
      cases result
      exact ⟨Nat.le_add_left 1 _, .next stands rfl, rfl⟩
  | storeField owner field =>
    rcases stack with _ | ⟨value, _ | ⟨object, rest⟩⟩
    · cases executed
    · cases executed
    · obtain ⟨store, _, result⟩ := Option.bind_eq_some_iff.mp executed
      cases result
      exact ⟨Nat.le_add_left 2 _, .next stands rfl, rfl⟩
  | jumpIfFalse target =>
    rcases stack with _ | ⟨value, rest⟩
    · cases executed
    · obtain ⟨truth, _, executed⟩ := Option.bind_eq_some_iff.mp executed
      refine ⟨Nat.le_add_left 1 _, ?_⟩
      cases truth with
      | true =>
        cases executed
        exact ⟨.next stands rfl, rfl⟩
      | false =>
        obtain ⟨index, goes, result⟩ := Option.bind_eq_some_iff.mp executed
        cases result
        exact ⟨.branch stands (stands_of_jumpTarget goes), rfl⟩
  | call routine count =>
    rcases stack with _ | ⟨value, rest⟩
    · cases executed
    · obtain ⟨⟨rfl, rfl⟩, result⟩ := Option.ite_none_right_eq_some.mp executed
      cases result
      exact ⟨Nat.le_add_left 1 _, .next stands rfl, rfl⟩
  | add | sub | mul | rem | div | eq | gt | lt | and | or | xor =>
    rcases stack with _ | ⟨second, _ | ⟨first, rest⟩⟩
    · cases executed
    · cases executed
    · obtain ⟨value, _, result⟩ := Option.bind_eq_some_iff.mp executed
      cases result
      exact ⟨Nat.le_add_left 2 _, .next stands rfl, rfl⟩

/-- Along every run that starts with an empty stack, the stack holds as many values as the depth of
the index that the run has come to. -/
theorem length_stack_of_runs {depth : Nat → Nat} (depths : StackDepths code depth)
    {slots : Nat → Option V} {world : World V S} {after : Configuration V S}
    (runs : primitives.Runs code ⟨0, [], slots, world⟩ after) :
    after.stack.length = depth after.counter := by
  induction runs with
  | refl => exact depths.start.symm
  | tail _ stepped ih =>
    obtain ⟨instruction, stands, _, flows, length⟩ := flows_of_step stepped
    rw [length, ih, depths.flows stands flows]

end Primitives

/-! ## Depths from the front to the back

Where control does not go on behind an instruction, nothing is known of the stack, so the next
instruction may take it for empty. Labels are reached with an empty stack from everywhere. So depths
can be checked in one pass over the code. -/

namespace Instruction

/-- The depth behind an instruction. -/
def depthAfter (instruction : Instruction) (depth : Nat) : Nat :=
  if instruction.goesOn then depth - instruction.pops + instruction.pushes else 0

/-- Whether an instruction may stand at a depth, if a return needs a number of values. -/
def Fits (least depth : Nat) : Instruction → Prop
  | label _ => depth = 0
  | jump _ => depth = 0
  | jumpIfFalse _ => depth = 1
  | ret => least ≤ depth ∧ depth ≤ 1
  | instruction => instruction.pops ≤ depth

end Instruction

/-- Code leads from one depth to another, with all its instructions at depths where they may stand. -/
inductive Leads (least : Nat) : Nat → List Instruction → Nat → Prop
  | nil {depth} : Leads least depth [] depth
  | cons {depth final instruction code} (fits : instruction.Fits least depth)
      (rest : Leads least (instruction.depthAfter depth) code final) :
      Leads least depth (instruction :: code) final

/-- The depth at an index of code. -/
def depthAt (code : List Instruction) (depth index : Nat) : Nat :=
  (code.take index).foldl (fun depth instruction => instruction.depthAfter depth) depth

namespace Leads

variable {least depth middle final : Nat} {instruction : Instruction}
  {code first second : List Instruction}

theorem single (fits : instruction.Fits least depth) :
    Leads least depth [instruction] (instruction.depthAfter depth) :=
  .cons fits .nil

theorem append (one : Leads least depth first middle) (two : Leads least middle second final) :
    Leads least depth (first ++ second) final := by
  induction one with
  | nil => exact two
  | cons fits _ ih => exact .cons fits (ih two)

/-- Returns may need less. -/
theorem mono {least' : Nat} (leads : Leads least depth code final) (le : least' ≤ least) :
    Leads least' depth code final := by
  induction leads with
  | nil => exact .nil
  | @cons depth final instruction code fits _ ih =>
    refine .cons ?_ ih
    cases instruction with
    | ret => exact ⟨Nat.le_trans le fits.1, fits.2⟩
    | _ => exact fits

/-- All instructions stand at depths where they may stand. -/
theorem fits_depthAt (leads : Leads least depth code final) {index : Nat}
    (stands : code[index]? = some instruction) : instruction.Fits least (depthAt code depth index) := by
  induction leads generalizing index with
  | nil => cases stands
  | cons fits _ ih =>
    cases index with
    | zero =>
      cases stands
      exact fits
    | succ index => exact ih stands

/-- The depth of an index in the second of two stretches of code. -/
theorem depthAt_append (leads : Leads least depth first middle) (second : List Instruction)
    (index : Nat) : depthAt (first ++ second) depth (first.length + index) =
      depthAt second middle index := by
  induction leads with
  | nil => rw [List.nil_append, List.length_nil, Nat.zero_add]
  | cons _ _ ih =>
    rw [List.length_cons, Nat.add_right_comm]
    exact ih

theorem depthAt_append_left (first second : List Instruction) (depth : Nat) {index : Nat}
    (inside : index ≤ first.length) :
    depthAt (first ++ second) depth index = depthAt first depth index := by
  rw [depthAt, depthAt, List.take_append_of_le_length inside]

end Leads

theorem depthAt_succ {code : List Instruction} {depth index : Nat} {instruction : Instruction}
    (stands : code[index]? = some instruction) :
    depthAt code depth (index + 1) = instruction.depthAfter (depthAt code depth index) := by
  rw [depthAt, depthAt, List.take_add_one, stands, List.foldl_append]
  rfl

/-- Code that leads on from an empty stack has depths that fit all ways through it. -/
theorem Leads.stackDepths {least final : Nat} {code : List Instruction}
    (leads : Leads least 0 code final) : StackDepths code (depthAt code 0) where
  start := rfl
  enough {index instruction} stands := by
    have fits := leads.fits_depthAt stands
    cases instruction with
    | label | jump | ret => exact Nat.zero_le _
    | jumpIfFalse => exact Nat.le_of_eq fits.symm
    | _ => exact fits
  flows {index next instruction} stands flows := by
    cases flows with
    | next stands' goesOn =>
      obtain rfl : instruction = _ := Option.some.inj (stands.symm.trans stands')
      rw [depthAt_succ stands, Instruction.depthAfter, if_pos goesOn]
    -- the stack is empty at a jump and at every label, so the two depths agree
    | jump stands' place =>
      obtain rfl : instruction = _ := Option.some.inj (stands.symm.trans stands')
      have here : depthAt code 0 index = 0 := leads.fits_depthAt stands
      have there : depthAt code 0 next = 0 := leads.fits_depthAt place
      rw [here, there]
      rfl
    -- a test finds one value and takes it
    | branch stands' place =>
      obtain rfl : instruction = _ := Option.some.inj (stands.symm.trans stands')
      have here : depthAt code 0 index = 1 := leads.fits_depthAt stands
      have there : depthAt code 0 next = 0 := leads.fits_depthAt place
      rw [here, there]
      rfl
  label stands := leads.fits_depthAt stands
  jump stands := leads.fits_depthAt stands
  ret stands := (leads.fits_depthAt stands).2

end ClassLang
