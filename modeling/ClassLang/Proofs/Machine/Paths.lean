import ClassLang.Proofs.Machine.Depth

/-! # Paths through code

A path is a way of control on which the values on the stack are counted. An instruction that finds
too few values takes all there are, so every way of control is a path, also where the stack is not in
order. `Safely` says that all paths from a point keep to points of one kind until they come to a point
of another; it is the greatest fixed point of its own step, so loops need no bound. -/

namespace ClassLang

/-! ## Points and paths -/

/-- An index of code, and how many values are on the stack there. -/
structure Point where
  index : Nat
  /-- The number of values on the stack. -/
  depth : Nat
  deriving DecidableEq, Repr

/-- The instruction at one point moves control to another. -/
def Moves (code : List Instruction) (point next : Point) : Prop :=
  ∃ instruction, code[point.index]? = some instruction ∧ Flows code point.index next.index ∧
    next.depth = point.depth - instruction.pops + instruction.pushes

/-- A path leads from one point to another. -/
def Arrives (code : List Instruction) : Point → Point → Prop := Relation.ReflTransGen (Moves code)

section Moves

variable {code : List Instruction} {instruction : Instruction} {index depth target : Nat}
  {label : Label} {next : Point}

theorem moves_next (stands : code[index]? = some instruction) (goesOn : instruction.goesOn = true) :
    Moves code ⟨index, depth⟩ ⟨index + 1, instruction.depthAfter depth⟩ :=
  ⟨instruction, stands, .next stands goesOn, by rw [Instruction.depthAfter, if_pos goesOn]⟩

theorem moves_jump (stands : code[index]? = some (.jump label))
    (place : code[target]? = some (.label label)) : Moves code ⟨index, depth⟩ ⟨target, depth⟩ :=
  ⟨_, stands, .jump stands place, rfl⟩

theorem moves_branch (stands : code[index]? = some (.jumpIfFalse label))
    (place : code[target]? = some (.label label)) : Moves code ⟨index, depth⟩ ⟨target, depth - 1⟩ :=
  ⟨_, stands, .branch stands place, rfl⟩

/-- Control goes on to the next instruction, or to the label of a jump or a test. -/
theorem Moves.cases (moves : Moves code ⟨index, depth⟩ next)
    (stands : code[index]? = some instruction) :
    (instruction.goesOn = true ∧ next = ⟨index + 1, instruction.depthAfter depth⟩) ∨
      (∃ label target, instruction = .jump label ∧ code[target]? = some (.label label) ∧
        next = ⟨target, depth⟩) ∨
      ∃ label target, instruction = .jumpIfFalse label ∧ code[target]? = some (.label label) ∧
        next = ⟨target, depth - 1⟩ := by
  obtain ⟨instruction', stands', flows, count⟩ := moves
  obtain rfl : instruction = instruction' := Option.some.inj (stands.symm.trans stands')
  obtain ⟨index', depth'⟩ := next
  obtain rfl : depth' = depth - instruction.pops + instruction.pushes := count
  replace flows : Flows code index index' := flows
  cases flows with
  | next stands'' goesOn =>
    obtain rfl : instruction = _ := Option.some.inj (stands.symm.trans stands'')
    exact .inl ⟨goesOn, by rw [Instruction.depthAfter, if_pos goesOn]⟩
  | jump stands'' place =>
    obtain rfl : instruction = _ := Option.some.inj (stands.symm.trans stands'')
    exact .inr (.inl ⟨_, _, rfl, place, rfl⟩)
  | branch stands'' place =>
    obtain rfl : instruction = _ := Option.some.inj (stands.symm.trans stands'')
    exact .inr (.inr ⟨_, _, rfl, place, rfl⟩)

theorem not_moves_of_none {point : Point} (none : code[point.index]? = none) :
    ¬Moves code point next := by
  rintro ⟨instruction, stands, _⟩
  rw [none] at stands
  cases stands

/-- Control goes on only from instructions, and not further than to the index behind the code. -/
theorem Flows.bounds {index' : Nat} (flows : Flows code index index') :
    (∃ instruction, code[index]? = some instruction) ∧ index' ≤ code.length := by
  have inside {place : Nat} {instruction : Instruction} (stands : code[place]? = some instruction) :
      place < code.length := (List.getElem?_eq_some_iff.mp stands).1
  cases flows with
  | next stands => exact ⟨⟨_, stands⟩, inside stands⟩
  | jump stands place | branch stands place => exact ⟨⟨_, stands⟩, Nat.le_of_lt (inside place)⟩

/-- Control can come to an index from the start of code. -/
def Reached (code : List Instruction) (index : Nat) : Prop :=
  Relation.ReflTransGen (Flows code) 0 index

theorem Reached.le (reached : Reached code index) : index ≤ code.length := by
  cases reached with
  | refl => exact Nat.zero_le _
  | tail _ flows => exact flows.bounds.2

/-- Every way of control is a path. -/
theorem reached_iff : Reached code index ↔ ∃ depth, Arrives code ⟨0, 0⟩ ⟨index, depth⟩ := by
  constructor
  · intro reached
    induction reached with
    | refl => exact ⟨0, .refl⟩
    | tail _ flows ih =>
      obtain ⟨depth, arrives⟩ := ih
      obtain ⟨instruction, stands⟩ := flows.bounds.1
      exact ⟨_, arrives.tail ⟨instruction, stands, flows, rfl⟩⟩
  · rintro ⟨depth, arrives⟩
    refine arrives.lift Point.index ?_
    rintro point next ⟨_, _, flows, _⟩
    exact flows

end Moves

/-! ## Counting values -/

/-- How many values an instruction needs, if a return needs the value that it gives back. -/
def Instruction.needs : Instruction → Nat
  | .ret => 1
  | instruction => instruction.pops

/-- The instruction at a point finds the values that it needs. -/
def Fed (code : List Instruction) (point : Point) : Prop :=
  ∀ instruction, code[point.index]? = some instruction → instruction.needs ≤ point.depth

theorem Instruction.pops_le_needs (instruction : Instruction) :
    instruction.pops ≤ instruction.needs := by
  cases instruction <;> first | exact Nat.le_refl _ | exact Nat.zero_le _

/-- The depth behind code, if control goes through it from the front to the back. -/
def depthBehind (code : List Instruction) (depth : Nat) : Nat :=
  code.foldl (fun depth instruction => instruction.depthAfter depth) depth

@[simp] theorem depthBehind_nil (depth : Nat) : depthBehind [] depth = depth := rfl

@[simp] theorem depthBehind_cons (instruction : Instruction) (code : List Instruction) (depth : Nat) :
    depthBehind (instruction :: code) depth = depthBehind code (instruction.depthAfter depth) := rfl

@[simp] theorem depthBehind_append (first second : List Instruction) (depth : Nat) :
    depthBehind (first ++ second) depth = depthBehind second (depthBehind first depth) :=
  List.foldl_append

namespace Leads

variable {least depth final : Nat}

theorem depthBehind_eq {code : List Instruction} (leads : Leads least depth code final) :
    depthBehind code depth = final := by
  induction leads with
  | nil => rfl
  | cons _ _ ih => exact ih

/-- Code in a row leads on if its parts do. -/
theorem of_append {first second : List Instruction}
    (leads : Leads least depth (first ++ second) final) :
    Leads least depth first (depthBehind first depth) ∧
      Leads least (depthBehind first depth) second final := by
  induction first generalizing depth with
  | nil => exact ⟨.nil, leads⟩
  | cons instruction rest ih =>
    cases leads with
    | cons fits later => exact (ih later).imp_left (.cons fits)

end Leads

/-! ## Safe paths -/

/-- On all paths from a point, points are fine until one is out. -/
def Safely (code : List Instruction) (fine out : Point → Prop) (start : Point) : Prop :=
  ∃ inside : Point → Prop, inside start ∧
    ∀ point, inside point → out point ∨ (fine point ∧ ∀ next, Moves code point next → inside next)

namespace Safely

variable {code : List Instruction} {fine fine' out out' : Point → Prop} {start point : Point}

/-- A point is out, or it is fine and all paths from the next points are safe. -/
theorem cases (safely : Safely code fine out start) :
    out start ∨ (fine start ∧ ∀ next, Moves code start next → Safely code fine out next) := by
  obtain ⟨inside, here, closed⟩ := safely
  exact (closed start here).imp_right fun ⟨good, later⟩ =>
    ⟨good, fun next moves => ⟨inside, later next moves, closed⟩⟩

theorem stop (done : out start) : Safely code fine out start :=
  ⟨(· = start), rfl, fun _ same => .inl (same ▸ done)⟩

/-- A point is safe if it is fine and the next points are safe until paths come back to it. -/
theorem loop (good : fine start) (again : ∀ next, Moves code start next →
      Safely code fine (fun point => point = start ∨ out point) next) :
    Safely code fine out start := by
  -- the points from which paths are safe until they come back to the start, the start among them
  refine ⟨Safely code fine fun point => point = start ∨ out point, .stop (.inl rfl), ?_⟩
  intro point safely
  rcases safely.cases with (rfl | done) | fine
  · exact .inr ⟨good, again⟩
  · exact .inl done
  · exact .inr fine

theorem mono (safely : Safely code fine out start) (weaker : ∀ point, fine point → fine' point)
    (wider : ∀ point, out point → out' point) : Safely code fine' out' start := by
  obtain ⟨inside, here, closed⟩ := safely
  exact ⟨inside, here, fun point within => (closed point within).imp (wider point) fun good =>
    ⟨weaker point good.1, good.2⟩⟩

theorem step (good : fine start) (later : ∀ next, Moves code start next → Safely code fine out next) :
    Safely code fine out start :=
  loop good fun next moves => (later next moves).mono (fun _ fine => fine) fun _ done => .inr done

/-- Safe paths may be continued. -/
theorem trans {middle : Point → Prop} (first : Safely code fine middle start)
    (second : ∀ point, middle point → Safely code fine out point) : Safely code fine out start := by
  refine ⟨fun point => Safely code fine middle point ∨ Safely code fine out point, .inl first, ?_⟩
  have goOn {point : Point} (safely : Safely code fine out point) : out point ∨ (fine point ∧
      ∀ next, Moves code point next → Safely code fine middle next ∨ Safely code fine out next) :=
    safely.cases.imp_right fun ⟨good, later⟩ => ⟨good, fun next moves => .inr (later next moves)⟩
  rintro point (safely | safely)
  · rcases safely.cases with done | ⟨good, later⟩
    · exact goOn (second point done)
    · exact .inr ⟨good, fun next moves => .inl (later next moves)⟩
  · exact goOn safely

/-- Where no point is out, all points of paths are fine. -/
theorem fine_of_arrives (safely : Safely code fine (fun _ => False) start)
    (arrives : Arrives code start point) : fine point := by
  have safely' : Safely code fine (fun _ => False) point := by
    induction arrives with
    | refl => exact safely
    | tail _ moves ih => exact (ih.cases.resolve_left id).2 _ moves
  exact (safely'.cases.resolve_left id).1

end Safely

/-! ## Single instructions -/

section Single

variable {code : List Instruction} {fine out : Point → Prop} {instruction : Instruction}
  {index depth : Nat} {label : Label}

/-- An instruction that is neither a jump nor a test is safe if the next point is. -/
theorem safely_next (stands : code[index]? = some instruction)
    (only : ∀ label, instruction ≠ .jump label ∧ instruction ≠ .jumpIfFalse label)
    (good : fine ⟨index, depth⟩)
    (later : Safely code fine out ⟨index + 1, instruction.depthAfter depth⟩) :
    Safely code fine out ⟨index, depth⟩ := by
  refine .step good fun next moves => ?_
  rcases moves.cases stands with ⟨_, rfl⟩ | ⟨label, _, jump, _⟩ | ⟨label, _, test, _⟩
  · exact later
  · exact absurd jump (only label).1
  · exact absurd test (only label).2

/-- A jump is safe if all places of its label are. -/
theorem safely_jump (stands : code[index]? = some (.jump label)) (good : fine ⟨index, depth⟩)
    (later : ∀ target, code[target]? = some (.label label) → Safely code fine out ⟨target, depth⟩) :
    Safely code fine out ⟨index, depth⟩ := by
  refine .step good fun next moves => ?_
  rcases moves.cases stands with ⟨goesOn, _⟩ | ⟨_, target, jump, place, rfl⟩ | ⟨_, _, test, _⟩
  · cases goesOn
  · cases jump
    exact later target place
  · cases test

/-- A test is safe if the next point and all places of its label are. -/
theorem safely_branch (stands : code[index]? = some (.jumpIfFalse label))
    (good : fine ⟨index, depth⟩) (next : Safely code fine out ⟨index + 1, depth - 1⟩)
    (later : ∀ target, code[target]? = some (.label label) →
      Safely code fine out ⟨target, depth - 1⟩) : Safely code fine out ⟨index, depth⟩ := by
  refine .step good fun next moves => ?_
  rcases moves.cases stands with ⟨_, rfl⟩ | ⟨_, _, jump, _⟩ | ⟨_, target, test, place, rfl⟩
  · exact next
  · cases jump
  · cases test
    exact later target place

/-- Nothing goes on behind a return. -/
theorem safely_ret (stands : code[index]? = some .ret) (good : fine ⟨index, depth⟩) :
    Safely code fine out ⟨index, depth⟩ := by
  refine .step good fun next moves => ?_
  rcases moves.cases stands with ⟨goesOn, _⟩ | ⟨_, _, jump, _⟩ | ⟨_, _, test, _⟩
  · cases goesOn
  · cases jump
  · cases test

end Single

end ClassLang
