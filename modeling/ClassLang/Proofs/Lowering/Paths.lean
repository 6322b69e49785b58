import ClassLang.Proofs.Lowering.Depth

/-! # Paths through the code of statements

Whatever is on the stack inside an expression, every statement starts and ends with an empty stack.
So the paths through the code of a block are known from the block alone: which of its statements
control comes to, and whether control comes to its end. The instructions on these paths find the
values that they need exactly if none of the statements uses a value that is written out instead. -/

namespace ClassLang

open Stmt List Instruction

variable {instruction : Instruction} {label : Label} {whole : List Instruction} {test : Expr}

/-! ## Straight code -/

/-- All instructions in a stretch of code that paths from a point come to find the values that they
need. -/
def FedFrom (whole : List Instruction) (start : Point) (low high : Nat) : Prop :=
  ∀ point, Arrives whole start point → low ≤ point.index → point.index < high → Fed whole point

/-- A point lies in a stretch of code, and finds the values that it needs there if `strict`. -/
structure InStretch (whole : List Instruction) (strict : Prop) (low high : Nat)
    (point : Point) : Prop where
  low_le : low ≤ point.index
  lt_high : point.index < high
  /-- The instruction finds the values that it needs. -/
  fed : strict → Fed whole point

theorem InStretch.mono {strict : Prop} {low low' high high' : Nat} {point : Point}
    (inside : InStretch whole strict low high point) (before : low' ≤ low) (behind : high ≤ high') :
    InStretch whole strict low' high' point :=
  ⟨Nat.le_trans before inside.low_le, Nat.lt_of_lt_of_le inside.lt_high behind, inside.fed⟩

theorem FedFrom.mono {start start' : Point} {low low' high high' : Nat}
    (fed : FedFrom whole start low high) (arrives : Arrives whole start start')
    (before : low ≤ low') (behind : high' ≤ high) : FedFrom whole start' low' high' :=
  fun point later low_le lt_high => fed point (arrives.trans later) (Nat.le_trans before low_le)
    (Nat.lt_of_lt_of_le lt_high behind)

/-- An instruction that stands at a point finds the values that it needs. -/
theorem fed_of_stands {index depth : Nat} (stands : whole[index]? = some instruction)
    (enough : instruction.needs ≤ depth) : Fed whole ⟨index, depth⟩ := by
  intro other stands'
  obtain rfl : instruction = other := Option.some.inj (stands.symm.trans stands')
  exact enough

namespace Instruction

variable {instruction : Instruction}

/-- A straight instruction may stand where it finds the values that it needs. -/
theorem fits_iff_of_straight (straight : instruction.isStraight = true) {least depth : Nat} :
    instruction.Fits least depth ↔ instruction.needs ≤ depth := by
  cases instruction <;> first | exact Iff.rfl | cases straight

/-- A straight instruction goes on to the next one and nowhere else. -/
theorem goesOn_of_straight (straight : instruction.isStraight = true) :
    instruction.goesOn = true ∧
      ∀ label, instruction ≠ .jump label ∧ instruction ≠ .jumpIfFalse label := by
  cases instruction <;> simp_all [isStraight, goesOn]

end Instruction

section Straight

variable {whole code : List Instruction} {index depth next : Nat}

variable (placed : Placed whole index code) (straight : code.all isStraight = true)

include placed straight

/-- Paths through straight code go to its end. -/
theorem safely_straight {strict : Prop} (behind : index + code.length = next)
    (leads : strict → ∃ final, Leads 1 depth code final) :
    Safely whole (InStretch whole strict index next) (· = ⟨next, depthBehind code depth⟩)
      ⟨index, depth⟩ := by
  induction code generalizing index depth with
  | nil =>
    subst behind
    exact .stop rfl
  | cons instruction rest ih =>
    rw [all_cons, Bool.and_eq_true] at straight
    rw [length_cons] at behind
    have fits : strict → instruction.needs ≤ depth := fun isStrict => by
      obtain ⟨final, leads⟩ := leads isStrict
      exact (fits_iff_of_straight straight.1).mp (leads_cons_iff.mp leads).1
    have inside : InStretch whole strict index next ⟨index, depth⟩ :=
      ⟨Nat.le_refl _, by simp only; omega, fun isStrict => fed_of_stands placed.head (fits isStrict)⟩
    refine safely_next placed.head (goesOn_of_straight straight.1).2 inside ?_
    refine (ih (placed.tail rfl) straight.2 (by omega) fun isStrict => ?_).mono
      (fun _ inside => inside.mono (Nat.le_succ _) (Nat.le_refl _)) fun _ => id
    exact (leads isStrict).imp fun _ leads => (leads_cons_iff.mp leads).2

/-- A path leads through straight code. -/
theorem arrives_straight (behind : index + code.length = next) :
    Arrives whole ⟨index, depth⟩ ⟨next, depthBehind code depth⟩ := by
  induction code generalizing index depth with
  | nil =>
    subst behind
    exact .refl
  | cons instruction rest ih =>
    rw [all_cons, Bool.and_eq_true] at straight
    rw [length_cons] at behind
    exact (ih (placed.tail rfl) straight.2 (by omega)).head
      (moves_next placed.head (goesOn_of_straight straight.1).1)

/-- Straight code leads on if its instructions find the values that they need. -/
theorem leads_of_fedFrom (fed : FedFrom whole ⟨index, depth⟩ index (index + code.length)) :
    Leads 1 depth code (depthBehind code depth) := by
  induction code generalizing index depth with
  | nil => exact .nil
  | cons instruction rest ih =>
    rw [all_cons, Bool.and_eq_true] at straight
    rw [length_cons] at fed
    have goesOn := (goesOn_of_straight straight.1).1
    refine .cons ?_ (ih (placed.tail rfl) straight.2 ?_)
    · refine (fits_iff_of_straight straight.1).mpr ?_
      exact fed _ .refl (Nat.le_refl _) (by simp only; omega) _ placed.head
    · exact fed.mono (.single (moves_next placed.head goesOn)) (Nat.le_succ _) (by omega)

end Straight

/-! ## Where control comes -/

namespace Stmt

mutual

/-- Whether control can come to the end of a statement, if every test may go either way. -/
def completes : Stmt → Bool
  | .branch _ body (some alternative) _ =>
    blockCompletes body || blockCompletes alternative
  | .ret _ _ | .leave _ => false
  | _ => true

/-- Whether control can come to the end of a block. -/
def blockCompletes : List Stmt → Bool
  | [] => true
  | stmt :: rest => stmt.completes && blockCompletes rest

end

mutual

/-- Whether a statement uses no call that writes a value out as a value, as far as control comes. -/
def isSupplied : Stmt → Bool
  | .declare _ init _ => init.writeFree
  | .assign _ value _ => value.writeFree
  | .branch test body none _ => test.writeFree && blockIsSupplied body
  | .branch test body (some alternative) _ =>
    test.writeFree && blockIsSupplied body && blockIsSupplied alternative
  | .loop test body _ => test.writeFree && blockIsSupplied body
  | .ret value _ => value.writeFree
  | .leave _ => true
  | .eval value _ => value.writesOnTop

/-- Whether a block uses no call that writes a value out as a value, as far as control comes. -/
def blockIsSupplied : List Stmt → Bool
  | [] => true
  | stmt :: rest => stmt.isSupplied && (!stmt.completes || blockIsSupplied rest)

end

@[simp] theorem blockCompletes_singleton (stmt : Stmt) :
    blockCompletes [stmt] = stmt.completes := by
  rw [blockCompletes, blockCompletes, Bool.and_true]

@[simp] theorem blockIsSupplied_singleton (stmt : Stmt) :
    blockIsSupplied [stmt] = stmt.isSupplied := by
  rw [blockIsSupplied, blockIsSupplied, Bool.or_true, Bool.and_true]

end Stmt

/-! ## Placed branches and loops -/

section Placed

variable {whole test body alternative : List Instruction} {first second : Label} {index : Nat}

/-- Where the parts of a branch are. -/
structure PlacedBranch (whole : List Instruction) (index : Nat) (first second : Label)
    (test body alternative : List Instruction) : Prop where
  tested : Placed whole index test
  decision : whole[index + test.length]? = some (.jumpIfFalse first)
  taken : Placed whole (index + test.length + 1) body
  skip : whole[index + test.length + 1 + body.length]? = some (.jump second)
  elseLabel : whole[index + test.length + 1 + body.length + 1]? = some (.label first)
  otherwise : Placed whole (index + test.length + 1 + body.length + 2) alternative
  endLabel : whole[index + test.length + 1 + body.length + 2 + alternative.length]? =
    some (.label second)

/-- Where the parts of a loop are. -/
structure PlacedLoop (whole : List Instruction) (index : Nat) (first second : Label)
    (test body : List Instruction) : Prop where
  startLabel : whole[index]? = some (.label first)
  tested : Placed whole (index + 1) test
  decision : whole[index + 1 + test.length]? = some (.jumpIfFalse second)
  repeated : Placed whole (index + 1 + test.length + 1) body
  again : whole[index + 1 + test.length + 1 + body.length]? = some (.jump first)
  endLabel : whole[index + 1 + test.length + 1 + body.length + 1]? = some (.label second)

theorem add_length_branchCode :
    index + (branchCode first second test body alternative).length =
      index + test.length + 1 + body.length + 2 + alternative.length + 1 := by
  simp only [branchCode, length_append, length_cons, length_nil]
  omega

theorem add_length_loopCode : index + (loopCode first second test body).length =
    index + 1 + test.length + 1 + body.length + 1 + 1 := by
  simp only [loopCode, length_append, length_cons, length_nil]
  omega

/-- The parts of a placed branch are placed. -/
theorem Placed.branch (placed : Placed whole index (branchCode first second test body alternative)) :
    PlacedBranch whole index first second test body alternative := by
  simp only [branchCode, append_assoc, cons_append, nil_append] at placed
  have behindTest := placed.right rfl
  have fromBody := behindTest.tail rfl
  have behindBody := fromBody.right rfl
  have fromLabel := behindBody.tail rfl
  have fromAlternative := fromLabel.tail rfl
  exact ⟨placed.left, behindTest.head, fromBody.left, behindBody.head, fromLabel.head,
    fromAlternative.left, (fromAlternative.right rfl).head⟩

/-- The parts of a placed loop are placed. -/
theorem Placed.loop (placed : Placed whole index (loopCode first second test body)) :
    PlacedLoop whole index first second test body := by
  simp only [loopCode, append_assoc, cons_append, nil_append] at placed
  have fromTest := placed.tail rfl
  have behindTest := fromTest.right rfl
  have fromBody := behindTest.tail rfl
  have behindBody := fromBody.right rfl
  exact ⟨placed.head, fromTest.left, behindTest.head, fromBody.left, behindBody.head,
    (behindBody.tail rfl).head⟩

end Placed

/-! ## Paths stay inside -/

/-- Where paths leave the code of statements: behind it if control comes there, or at the label behind
the innermost loop. The stack is empty there. -/
inductive Leaves (whole : List Instruction) (exit? : Option Label) (done : Prop) (next : Nat) :
    Point → Prop
  | behind (completes : done) : Leaves whole exit? done next ⟨next, 0⟩
  | exit {label index} (isExit : exit? = some label)
      (place : whole[index]? = some (.label label)) : Leaves whole exit? done next ⟨index, 0⟩

/-- Paths that enter a stretch of code with an empty stack stay in it until they leave it. -/
def Passes (whole : List Instruction) (strict : Prop) (exit? : Option Label) (done : Prop)
    (index next : Nat) : Prop :=
  Safely whole (InStretch whole strict index next) (Leaves whole exit? done next) ⟨index, 0⟩

section Passes

variable {whole code : List Instruction} {strict done done' : Prop} {exit? : Option Label}
  {low index next high : Nat} {out : Point → Prop} {frame : Frame}

/-- Paths through a part of a stretch go on where they leave it. -/
theorem Passes.within (passes : Passes whole strict exit? done index next) (before : low ≤ index)
    (behind : next ≤ high)
    (onward : done → Safely whole (InStretch whole strict low high) out ⟨next, 0⟩)
    (exits : ∀ label target, exit? = some label → whole[target]? = some (.label label) →
      Safely whole (InStretch whole strict low high) out ⟨target, 0⟩) :
    Safely whole (InStretch whole strict low high) out ⟨index, 0⟩ := by
  refine (passes.mono (fun _ inside => inside.mono before behind) fun _ => id).trans ?_
  rintro _ (completes | ⟨isExit, place⟩)
  · exact onward completes
  · exact exits _ _ isExit place

theorem passes_nothing (completes : done) : Passes whole strict exit? done index index :=
  .stop (.behind completes)

/-- Code in a row. -/
theorem Passes.sequence {middle : Nat} (one : Passes whole strict exit? done index middle)
    (two : done → Passes whole strict exit? done' middle next) (before : index ≤ middle)
    (behind : middle ≤ next) : Passes whole strict exit? (done ∧ done') index next := by
  refine one.within (Nat.le_refl _) behind (fun completes => ?_) fun _ _ isExit place =>
    .stop (.exit isExit place)
  exact (two completes).within before (Nat.le_refl _)
    (fun completes' => .stop (.behind ⟨completes, completes'⟩)) fun _ _ isExit place =>
    .stop (.exit isExit place)

/-- Code without jumps. -/
theorem Settles.passes {quiet : Prop} (settles : Settles code quiet)
    (placed : Placed whole index code) (supplied : strict → quiet) :
    Passes whole strict exit? True index (index + code.length) := by
  refine (safely_straight placed settles.straight rfl fun isStrict =>
    ⟨0, settles.leads (supplied isStrict)⟩).mono (fun _ => id) ?_
  rintro _ rfl
  rw [settles.empties]
  exact .behind trivial

/-- A value that is computed for the next instruction. -/
theorem safely_operand {expr : Expr} (lowered : expr.lower frame = .ok code)
    (placed : Placed whole index code) (stands : whole[index + code.length]? = some instruction)
    (uses : instruction.needs = 1) (quiet : strict → expr.writeFree = true) (before : low ≤ index)
    (behind : index + code.length < high)
    (onward : ∀ depth ≤ 1, InStretch whole strict low high ⟨index + code.length, depth⟩ →
      Safely whole (InStretch whole strict low high) out ⟨index + code.length, depth⟩) :
    Safely whole (InStretch whole strict low high) out ⟨index, 0⟩ := by
  have leads (isStrict : strict) := Expr.leads_lower lowered (quiet isStrict) 1 0
  refine ((safely_straight placed (Expr.straight_lower lowered) rfl fun isStrict =>
    ⟨_, leads isStrict⟩).mono (fun _ inside => inside.mono before (Nat.le_of_lt behind))
    fun _ => id).trans ?_
  rintro _ rfl
  refine onward _ ((Expr.emits_lower lowered).depthBehind_le 0)
    ⟨Nat.le_add_right_of_le before, behind, fun isStrict => fed_of_stands stands ?_⟩
  exact Nat.le_of_eq (uses.trans (leads isStrict).depthBehind_eq.symm)

/-- A test goes on behind it or at its label. -/
theorem safely_test (lowered : test.lower frame = .ok code) (placed : Placed whole index code)
    (decision : whole[index + code.length]? = some (.jumpIfFalse label))
    (quiet : strict → test.writeFree = true) (before : low ≤ index)
    (behind : index + code.length < high)
    (holds : Safely whole (InStretch whole strict low high) out ⟨index + code.length + 1, 0⟩)
    (fails : ∀ target, whole[target]? = some (.label label) →
      Safely whole (InStretch whole strict low high) out ⟨target, 0⟩) :
    Safely whole (InStretch whole strict low high) out ⟨index, 0⟩ := by
  refine safely_operand lowered placed decision rfl quiet before behind fun depth most inside => ?_
  have taken : depth - 1 = 0 := Nat.sub_eq_zero_of_le most
  refine safely_branch decision inside ?_ fun target place => ?_
  · rw [taken]
    exact holds
  · rw [taken]
    exact fails target place

/-- An instruction that is met with an empty stack and needs no value lies in its stretch. -/
theorem inStretch_of_stands (stands : whole[index]? = some instruction)
    (needless : instruction.needs = 0) (before : low ≤ index) (behind : index < high) :
    InStretch whole strict low high ⟨index, 0⟩ :=
  ⟨before, behind, fun _ => fed_of_stands stands (Nat.le_of_eq needless)⟩

theorem safely_label (stands : whole[index]? = some (.label label)) (before : low ≤ index)
    (behind : index < high)
    (onward : Safely whole (InStretch whole strict low high) out ⟨index + 1, 0⟩) :
    Safely whole (InStretch whole strict low high) out ⟨index, 0⟩ :=
  safely_next stands (fun _ => ⟨nofun, nofun⟩) (inStretch_of_stands stands rfl before behind) onward

/-- A return. -/
theorem passes_ret {value : Expr} (lowered : value.lower frame = .ok code)
    (placed : Placed whole index (code ++ [Instruction.ret])) (quiet : strict → value.writeFree = true)
    (behind : index + code.length < next) : Passes whole strict exit? False index next := by
  have stands := (placed.right rfl).head
  exact safely_operand lowered placed.left stands rfl quiet (Nat.le_refl _) behind
    fun depth _ inside => safely_ret stands inside

theorem passes_leave (placed : Placed whole index [.jump label]) :
    Passes whole strict (some label) False index (index + 1) :=
  safely_jump placed.head
    (inStretch_of_stands placed.head rfl (Nat.le_refl _) (Nat.lt_succ_self _))
    fun _ place => .stop (.exit rfl place)

section Tested

variable {testCode body : List Instruction} {first second : Label}
  (distinct : (labelsIn whole).Nodup) (lowered : test.lower frame = .ok testCode)
  (quiet : strict → test.writeFree = true)

include distinct lowered quiet

/-- A branch. -/
theorem passes_branch {alternative : List Instruction}
    (placed : PlacedBranch whole index first second testCode body alternative)
    (taken : Passes whole strict exit? done (index + testCode.length + 1)
      (index + testCode.length + 1 + body.length))
    (otherwise : Passes whole strict exit? done' (index + testCode.length + 1 + body.length + 2)
      (index + testCode.length + 1 + body.length + 2 + alternative.length))
    (behind : index + testCode.length + 1 + body.length + 2 + alternative.length + 1 = next) :
    Passes whole strict exit? (done ∨ done') index next := by
  -- all ways meet at the last label
  have last (either : done ∨ done') : Safely whole (InStretch whole strict index next)
      (Leaves whole exit? (done ∨ done') next)
      ⟨index + testCode.length + 1 + body.length + 2 + alternative.length, 0⟩ := by
    refine safely_label placed.endLabel (by omega) (by omega) ?_
    rw [behind]
    exact .stop (.behind either)
  refine safely_test lowered placed.tested placed.decision quiet (Nat.le_refl _) (by omega) ?_ ?_
  · refine taken.within (by omega) (by omega) (fun completes => ?_) fun _ _ isExit place =>
      .stop (.exit isExit place)
    refine safely_jump placed.skip
      (inStretch_of_stands placed.skip rfl (by omega) (by omega)) fun target place => ?_
    rw [index_unique distinct place placed.endLabel]
    exact last (.inl completes)
  · intro target place
    rw [index_unique distinct place placed.elseLabel]
    refine safely_label placed.elseLabel (by omega) (by omega) ?_
    exact otherwise.within (by omega) (by omega) (fun completes => last (.inr completes))
      fun _ _ isExit place => .stop (.exit isExit place)

/-- A loop. -/
theorem passes_loop (placed : PlacedLoop whole index first second testCode body)
    (repeated : Passes whole strict (some second) done (index + 1 + testCode.length + 1)
      (index + 1 + testCode.length + 1 + body.length))
    (behind : index + 1 + testCode.length + 1 + body.length + 1 + 1 = next) :
    Passes whole strict exit? True index next := by
  -- the loop is left at its last label only, from its test or from its body
  have last (target : Nat) (place : whole[target]? = some (.label second)) :
      Safely whole (InStretch whole strict index next)
        (fun point => point = ⟨index, 0⟩ ∨ Leaves whole exit? True next point) ⟨target, 0⟩ := by
    rw [index_unique distinct place placed.endLabel]
    refine safely_label placed.endLabel (by omega) (by omega) ?_
    rw [behind]
    exact .stop (.inr (.behind trivial))
  refine .loop (inStretch_of_stands placed.startLabel rfl (Nat.le_refl _) (by omega))
    fun point moves => ?_
  rcases moves.cases placed.startLabel with ⟨_, rfl⟩ | ⟨_, _, jump, _⟩ | ⟨_, _, test, _⟩
  · refine safely_test lowered placed.tested placed.decision quiet (Nat.le_succ _) (by omega) ?_ last
    refine repeated.within (by omega) (by omega) (fun _ => ?_) fun label target isExit place => ?_
    · refine safely_jump placed.again
        (inStretch_of_stands placed.again rfl (by omega) (by omega)) fun target place => ?_
      rw [index_unique distinct place placed.startLabel]
      exact .stop (.inl rfl)
    · obtain rfl : second = label := Option.some.inj isExit
      exact last target place
  · cases jump
  · cases test

end Tested

/-- It may be said less exactly when control comes to the end. -/
theorem Passes.imp (passes : Passes whole strict exit? done index next) (weaker : done → done') :
    Passes whole strict exit? done' index next := by
  refine passes.mono (fun _ => id) ?_
  rintro _ (completes | ⟨isExit, place⟩)
  · exact .behind (weaker completes)
  · exact .exit isExit place

end Passes

section Block

variable {whole code : List Instruction} {exit? : Option Label} {emitter final : Emitter}
  {block : List Stmt} {index : Nat}

/-- Paths through the code of a block stay in it until they leave it, and come to its end only if the
block completes. If the block is supplied, all instructions on the way find the values that they
need. -/
theorem Stmt.Emits.passes (emits : Emits exit? emitter block code final)
    (distinct : (labelsIn whole).Nodup) {strict : Prop} (placed : Placed whole index code)
    (supplied : strict → blockIsSupplied block = true) :
    Passes whole strict exit? (blockCompletes block = true) index (index + code.length) := by
  induction emits generalizing index with
  | nothing => exact passes_nothing rfl
  | @sequence _ _ _ _ stmt rest code restCode _ _ first second =>
    simp only [blockIsSupplied, Bool.and_eq_true, Bool.or_eq_true, Bool.not_eq_true'] at supplied
    simp only [blockCompletes, Bool.and_eq_true]
    have one := first placed.left fun isStrict =>
      (blockIsSupplied_singleton stmt).trans (supplied isStrict).1
    rw [blockCompletes_singleton] at one
    rw [length_append, ← Nat.add_assoc]
    refine one.sequence (fun completes => second (placed.right rfl) fun isStrict => ?_)
      (Nat.le_add_right _ _) (Nat.le_add_right _ _)
    exact (supplied isStrict).2.resolve_left (by rw [completes]; nofun)
  | declare lowered =>
    simp only [blockIsSupplied_singleton, isSupplied] at supplied
    exact ((settles_storeLocal lowered _).passes placed supplied).imp fun _ => rfl
  | assign lowered =>
    simp only [blockIsSupplied_singleton, isSupplied] at supplied
    exact ((settles_assignCode lowered).passes placed supplied).imp fun _ => rfl
  | eval lowered =>
    simp only [blockIsSupplied_singleton, isSupplied] at supplied
    exact ((settles_evalCode lowered).passes placed supplied).imp fun _ => rfl
  | @branch _ _ _ test body _ _ _ lowered _ taken =>
    simp only [blockIsSupplied_singleton, isSupplied, Bool.and_eq_true] at supplied
    have parts := placed.branch
    rw [add_length_branchCode]
    exact (passes_branch distinct lowered (fun isStrict => (supplied isStrict).1) parts
      (taken parts.taken fun isStrict => (supplied isStrict).2) (passes_nothing trivial)
      rfl).imp fun _ => rfl
  | @alternative _ _ _ _ test body alternative _ _ _ _ lowered _ _ taken otherwise =>
    simp only [blockIsSupplied_singleton, isSupplied, Bool.and_eq_true] at supplied
    have parts := placed.branch
    rw [add_length_branchCode, blockCompletes_singleton, completes, Bool.or_eq_true]
    exact passes_branch distinct lowered (fun isStrict => (supplied isStrict).1.1) parts
      (taken parts.taken fun isStrict => (supplied isStrict).1.2)
      (otherwise parts.otherwise fun isStrict => (supplied isStrict).2) rfl
  | @loop _ _ _ test body _ _ _ lowered _ repeated =>
    simp only [blockIsSupplied_singleton, isSupplied, Bool.and_eq_true] at supplied
    have parts := placed.loop
    rw [add_length_loopCode]
    exact (passes_loop distinct lowered (fun isStrict => (supplied isStrict).1) parts
      (repeated parts.repeated fun isStrict => (supplied isStrict).2) rfl).imp fun _ => rfl
  | ret lowered =>
    simp only [blockIsSupplied_singleton, isSupplied] at supplied
    exact (passes_ret lowered placed supplied (by simp)).imp False.elim
  | leave => exact (passes_leave placed).imp False.elim

/-! ## Paths go everywhere -/

/-- A path goes through code without jumps. -/
theorem Settles.arrives {quiet : Prop} (settles : Settles code quiet)
    (placed : Placed whole index code) : Arrives whole ⟨index, 0⟩ ⟨index + code.length, 0⟩ := by
  have arrives : Arrives whole ⟨index, 0⟩ ⟨_, depthBehind code 0⟩ :=
    arrives_straight placed settles.straight rfl
  rwa [settles.empties] at arrives

/-- Paths go through a test to behind it and to its label. -/
theorem arrives_test {frame : Frame} (lowered : test.lower frame = .ok code)
    (placed : Placed whole index code)
    (decision : whole[index + code.length]? = some (.jumpIfFalse label)) :
    Arrives whole ⟨index, 0⟩ ⟨index + code.length + 1, 0⟩ ∧
      ∀ target, whole[target]? = some (.label label) → Arrives whole ⟨index, 0⟩ ⟨target, 0⟩ := by
  have arrives : Arrives whole ⟨index, 0⟩ ⟨_, depthBehind code 0⟩ :=
    arrives_straight placed (Expr.straight_lower lowered) rfl
  have taken : depthBehind code 0 - 1 = 0 :=
    Nat.sub_eq_zero_of_le ((Expr.emits_lower lowered).depthBehind_le 0)
  constructor
  · have next : Moves whole ⟨_, depthBehind code 0⟩ ⟨_, depthBehind code 0 - 1⟩ :=
      moves_next decision rfl
    rw [taken] at next
    exact arrives.tail next
  · intro target place
    have next : Moves whole ⟨_, depthBehind code 0⟩ ⟨_, depthBehind code 0 - 1⟩ :=
      moves_branch decision place
    rw [taken] at next
    exact arrives.tail next

theorem moves_label (stands : whole[index]? = some (.label label)) :
    Moves whole ⟨index, 0⟩ ⟨index + 1, 0⟩ :=
  moves_next stands rfl

/-- A path goes through the code of a block that completes. -/
theorem Stmt.Emits.arrives (emits : Emits exit? emitter block code final)
    (placed : Placed whole index code) (completes : blockCompletes block = true) :
    Arrives whole ⟨index, 0⟩ ⟨index + code.length, 0⟩ := by
  induction emits generalizing index with
  | nothing => exact .refl
  | sequence _ _ first second =>
    rw [blockCompletes, Bool.and_eq_true] at completes
    rw [length_append, ← Nat.add_assoc]
    exact (first placed.left ((blockCompletes_singleton _).trans completes.1)).trans
      (second (placed.right rfl) completes.2)
  | declare lowered => exact (settles_storeLocal lowered _).arrives placed
  | assign lowered => exact (settles_assignCode lowered).arrives placed
  | eval lowered => exact (settles_evalCode lowered).arrives placed
  | branch lowered =>
    -- past the body, where the test fails
    have parts := placed.branch
    have fails := (arrives_test lowered parts.tested parts.decision).2 _ parts.elseLabel
    rw [add_length_branchCode]
    exact (fails.tail (moves_label parts.elseLabel)).tail (moves_label parts.endLabel)
  | alternative lowered _ _ taken otherwise =>
    have parts := placed.branch
    have tested := arrives_test lowered parts.tested parts.decision
    rw [add_length_branchCode]
    refine Relation.ReflTransGen.tail ?_ (moves_label parts.endLabel)
    rw [Stmt.blockCompletes_singleton, Stmt.completes, Bool.or_eq_true] at completes
    rcases completes with completes | completes
    · exact (tested.1.trans (taken parts.taken completes)).tail
        (moves_jump parts.skip parts.endLabel)
    · exact ((tested.2 _ parts.elseLabel).tail (moves_label parts.elseLabel)).trans
        (otherwise parts.otherwise completes)
  | loop lowered =>
    have parts := placed.loop
    have started : Arrives whole ⟨index, 0⟩ ⟨index + 1, 0⟩ := .single (moves_label parts.startLabel)
    have fails := (arrives_test lowered parts.tested parts.decision).2 _ parts.endLabel
    rw [add_length_loopCode]
    exact (started.trans fails).tail (moves_label parts.endLabel)
  | ret | leave => cases completes

/-! ## What paths need -/

/-- Code without jumps finds the values that it needs only if it is quiet. -/
theorem Settles.quiet_of_fedFrom {quiet : Prop} (settles : Settles code quiet)
    (placed : Placed whole index code)
    (fed : FedFrom whole ⟨index, 0⟩ index (index + code.length)) : quiet :=
  settles.quiet (leads_of_fedFrom placed settles.straight fed)

/-- A value that the next instruction needs is not written out instead. -/
theorem writeFree_of_fedFrom {frame : Frame} {expr : Expr} {next : Nat}
    (lowered : expr.lower frame = .ok code) (placed : Placed whole index code)
    (stands : whole[index + code.length]? = some instruction) (uses : instruction.needs = 1)
    (behind : index + code.length < next) (fed : FedFrom whole ⟨index, 0⟩ index next) :
    expr.writeFree = true := by
  have straight := Expr.straight_lower lowered
  have leads := leads_of_fedFrom placed straight
    (fed.mono .refl (Nat.le_refl _) (Nat.le_of_lt behind))
  refine (Expr.emits_lower lowered).writeFree_of_leads leads ?_
  have enough := fed _ (arrives_straight placed straight rfl) (Nat.le_add_right _ _) behind _ stands
  rwa [uses] at enough

/-- If the instructions of a block that paths come to find the values that they need, the block is
supplied. -/
theorem Stmt.Emits.isSupplied (emits : Emits exit? emitter block code final)
    (placed : Placed whole index code) (fed : FedFrom whole ⟨index, 0⟩ index (index + code.length)) :
    blockIsSupplied block = true := by
  induction emits generalizing index with
  | nothing => rfl
  | @sequence _ _ _ _ stmt rest code restCode before _ first second =>
    rw [length_append, ← Nat.add_assoc] at fed
    have one := first placed.left (fed.mono .refl (Nat.le_refl _) (Nat.le_add_right _ _))
    rw [blockIsSupplied_singleton] at one
    rw [blockIsSupplied, one, Bool.true_and, Bool.or_eq_true, Bool.not_eq_true']
    -- the rest counts only if control comes to it
    cases completes : stmt.completes with
    | false => exact .inl rfl
    | true =>
      have arrives := before.arrives placed.left ((blockCompletes_singleton stmt).trans completes)
      exact .inr (second (placed.right rfl)
        (fed.mono arrives (Nat.le_add_right _ _) (Nat.le_refl _)))
  | declare lowered =>
    rw [blockIsSupplied_singleton, isSupplied]
    exact (settles_storeLocal lowered _).quiet_of_fedFrom placed fed
  | assign lowered =>
    rw [blockIsSupplied_singleton, isSupplied]
    exact (settles_assignCode lowered).quiet_of_fedFrom placed fed
  | eval lowered =>
    rw [blockIsSupplied_singleton, isSupplied]
    exact (settles_evalCode lowered).quiet_of_fedFrom placed fed
  | branch lowered _ taken =>
    have parts := placed.branch
    have tested := arrives_test lowered parts.tested parts.decision
    rw [add_length_branchCode] at fed
    rw [blockIsSupplied_singleton, isSupplied,
      writeFree_of_fedFrom lowered parts.tested parts.decision rfl (by omega) fed,
      taken parts.taken (fed.mono tested.1 (by omega) (by omega))]
    rfl
  | alternative lowered _ _ taken otherwise =>
    have parts := placed.branch
    have tested := arrives_test lowered parts.tested parts.decision
    have fails := (tested.2 _ parts.elseLabel).tail (moves_label parts.elseLabel)
    rw [add_length_branchCode] at fed
    rw [blockIsSupplied_singleton, isSupplied,
      writeFree_of_fedFrom lowered parts.tested parts.decision rfl (by omega) fed,
      taken parts.taken (fed.mono tested.1 (by omega) (by omega)),
      otherwise parts.otherwise (fed.mono fails (by omega) (by omega))]
    rfl
  | loop lowered _ repeated =>
    have parts := placed.loop
    have tested := arrives_test lowered parts.tested parts.decision
    have started : Arrives whole ⟨index, 0⟩ ⟨index + 1, 0⟩ := .single (moves_label parts.startLabel)
    rw [add_length_loopCode] at fed
    have test := writeFree_of_fedFrom lowered parts.tested parts.decision rfl (by omega)
      (fed.mono started (Nat.le_succ _) (Nat.le_refl _))
    rw [blockIsSupplied_singleton, isSupplied, test,
      repeated parts.repeated (fed.mono (started.trans tested.1) (by omega) (by omega))]
    rfl
  | ret lowered =>
    rw [blockIsSupplied_singleton, isSupplied]
    exact writeFree_of_fedFrom lowered placed.left (placed.right rfl).head rfl (by simp) fed
  | leave => rfl

end Block

end ClassLang
