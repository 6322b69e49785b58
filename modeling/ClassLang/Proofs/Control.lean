import ClassLang.Proofs.Entry
import ClassLang.Proofs.Lowering.Labels
import ClassLang.Proofs.Lowering.Paths

/-! # Control in the methods of a build

Which instructions of a method control comes to is known from its statements. Analysis asks neither
that a method with a result returns one nor that a value that is used is not written out instead. So
control may run off the end of a method with a result, and an instruction may lack the values that it
takes; both happen exactly where the statements say so. -/

namespace ClassLang

open List

variable {method : MethodCode}

/-! ## Routines -/

/-- What the code of a method is made from. -/
structure Routine where
  /-- The fields that get their initial values. -/
  fields : List Field
  body : List Stmt
  result : Option TypeRef

/-- Whether a routine uses no call that writes a value out as a value, as far as control comes. -/
def Routine.isSupplied (routine : Routine) : Bool :=
  routine.fields.all (fun field => field.init.writeFree) && Stmt.blockIsSupplied routine.body

/-- What the methods of a class are made from, the one that sets up a new object first. -/
def ClassDecl.routines (decl : ClassDecl) : List Routine :=
  ⟨decl.fields, decl.init, none⟩ :: decl.methods.map fun method => ⟨[], method.body, method.result⟩

/-- The parts of the code of a routine: its fields, its statements and a return behind them, which is
left out if there is a result or if a return stands there already. -/
structure Routine.Makes (routine : Routine) (parts : MethodParts) : Prop where
  fields : ∃ frame : Frame, frame.fieldsCode routine.fields = .ok parts.fields
  body : ∃ emitter final, Stmt.lowerBlock none emitter routine.body = .ok (parts.body, final)
  closing : (parts.closing = [.ret] ∧ routine.result = none) ∨
    (parts.closing = [] ∧ (routine.result.isSome = true ∨ parts.body.getLast? = some .ret))

/-- Whether every instruction that control comes to finds the values that it takes, and every return
that a statement asks for the value that it gives back. -/
structure MethodParts.Supplied (parts : MethodParts) : Prop where
  /-- Instructions find the values that they take. -/
  enough : ∀ {point : Point} {instruction : Instruction}, Arrives parts.code ⟨0, 0⟩ point →
    parts.code[point.index]? = some instruction → instruction.pops ≤ point.depth
  /-- Returns find the value that they give back. -/
  returned : ∀ {index depth : Nat}, parts.body[index]? = some .ret →
    Arrives parts.code ⟨0, 0⟩ ⟨parts.fields.length + index, depth⟩ → 1 ≤ depth

/-! ## Ends of code -/

theorem getLast?_ne_ret_of_straight {code : List Instruction}
    (straight : code.all Instruction.isStraight = true) : code.getLast? ≠ some .ret := by
  intro last
  have stays := all_eq_true.mp straight _ (mem_of_getLast? last)
  cases stays

/-- A block whose code ends with a return does not complete. -/
theorem Stmt.Emits.not_completes_of_ret {exit? : Option Label} {emitter final : Emitter}
    {block : List Stmt} {code : List Instruction} (emits : Stmt.Emits exit? emitter block code final)
    (last : code.getLast? = some .ret) : Stmt.blockCompletes block = false := by
  induction emits with
  | nothing => cases last
  | @sequence _ _ _ _ stmt rest code restCode _ _ first second =>
    rw [Stmt.blockCompletes, Bool.and_eq_false_iff]
    cases restCode with
    | nil =>
      rw [append_nil] at last
      rw [← Stmt.blockCompletes_singleton]
      exact .inl (first last)
    | cons instruction later =>
      rw [getLast?_append_cons] at last
      exact .inr (second last)
  | declare lowered =>
    rw [getLast?_concat] at last
    cases last
  | assign lowered =>
    exact absurd last (getLast?_ne_ret_of_straight (settles_assignCode lowered).straight)
  | eval lowered =>
    exact absurd last (getLast?_ne_ret_of_straight (settles_evalCode lowered).straight)
  -- branches and loops end with a label
  | branch | alternative =>
    rw [branchCode, getLast?_concat] at last
    cases last
  | loop =>
    rw [loopCode, getLast?_append_cons] at last
    cases last
  | ret | leave => rfl

namespace Routine.Makes

variable {routine : Routine} {parts : MethodParts}

variable (makes : routine.Makes parts)

include makes

/-- The code of the statements has the shape of the code of a block that no loop surrounds. -/
theorem emits : ∃ emitter final, Stmt.Emits none emitter routine.body parts.body final := by
  obtain ⟨emitter, final, lowered⟩ := makes.body
  exact ⟨emitter, final, Stmt.emits_lowerBlock _ lowered⟩

theorem settles : Settles parts.fields (∀ field ∈ routine.fields, field.init.writeFree = true) := by
  obtain ⟨frame, lowered⟩ := makes.fields
  exact settles_fieldsCode lowered

theorem labelsIn_eq : labelsIn parts.code = labelsIn parts.body := by
  rw [MethodParts.code, labelsIn_append, labelsIn_append,
    labelsIn_of_straight makes.settles.straight, nil_append]
  rcases makes.closing with ⟨closing, _⟩ | ⟨closing, _⟩ <;> rw [closing] <;>
    exact append_nil _

/-- The code of a routine has the jumps of its statements. -/
theorem targetsIn_eq : targetsIn parts.code = targetsIn parts.body := by
  rw [MethodParts.code, targetsIn_append, targetsIn_append,
    targetsIn_of_straight makes.settles.straight, nil_append]
  rcases makes.closing with ⟨closing, _⟩ | ⟨closing, _⟩ <;> rw [closing] <;>
    exact append_nil _

theorem distinct : (labelsIn parts.code).Nodup := by
  obtain ⟨emitter, final, emits⟩ := makes.emits
  rw [makes.labelsIn_eq]
  exact emits.numbered.distinct

/-- The code for fields and the code of the statements are placed in the code of a routine. -/
theorem placed : Placed parts.code 0 parts.fields ∧
    Placed parts.code parts.fields.length parts.body := by
  have whole : Placed ([] ++ parts.code ++ []) 0 parts.code :=
    placed_of_fresh makes.distinct fun _ _ => ⟨nofun, nofun⟩
  rw [nil_append, append_nil] at whole
  exact ⟨whole.left.left, whole.left.right (Nat.zero_add _)⟩

/-- Paths through a routine stay in its fields and statements until they come to the end of these. -/
theorem safely {strict : Prop} (supplied : strict → routine.isSupplied = true) :
    Safely parts.code (InStretch parts.code strict 0 (parts.fields.length + parts.body.length))
      (fun point => point = ⟨parts.fields.length + parts.body.length, 0⟩ ∧
        Stmt.blockCompletes routine.body = true) ⟨0, 0⟩ := by
  obtain ⟨emitter, final, emits⟩ := makes.emits
  have both (isStrict : strict) := Bool.and_eq_true_iff.mp (supplied isStrict)
  have fields : Passes parts.code strict none True 0 (0 + parts.fields.length) :=
    makes.settles.passes makes.placed.1 fun isStrict => all_eq_true.mp (both isStrict).1
  have body := emits.passes makes.distinct makes.placed.2 fun isStrict => (both isStrict).2
  rw [Nat.zero_add] at fields
  exact fields.within (Nat.le_refl _) (Nat.le_add_right _ _)
    (fun _ => body.within (Nat.zero_le _) (Nat.le_refl _)
      (fun completes => .stop ⟨rfl, completes⟩) nofun) nofun

/-- A path goes through the fields of a routine to its statements. -/
theorem arrives_body : Arrives parts.code ⟨0, 0⟩ ⟨parts.fields.length, 0⟩ := by
  have arrives := makes.settles.arrives makes.placed.1
  rwa [Nat.zero_add] at arrives

/-- Behind the statements of a routine stands a return, unless the routine has a result or returns
there already: then the code ends. -/
theorem stands_behind :
    (parts.code[parts.fields.length + parts.body.length]? = some .ret ∧ routine.result = none) ∨
      (parts.code.length = parts.fields.length + parts.body.length ∧
        (routine.result.isSome = true ∨ parts.body.getLast? = some .ret)) := by
  rcases makes.closing with ⟨closing, untyped⟩ | ⟨closing, why⟩
  · refine .inl ⟨?_, untyped⟩
    rw [MethodParts.code, closing, ← length_append, getElem?_concat_length]
  · refine .inr ⟨?_, why⟩
    rw [MethodParts.code, closing, append_nil, length_append]

/-- Control goes nowhere from behind the statements of a routine. -/
theorem not_moves_behind {depth : Nat} {next : Point} :
    ¬Moves parts.code ⟨parts.fields.length + parts.body.length, depth⟩ next := by
  rcases makes.stands_behind with ⟨stands, _⟩ | ⟨length, _⟩
  · intro moves
    rcases moves.cases stands with ⟨goesOn, _⟩ | ⟨_, _, jump, _⟩ | ⟨_, _, test, _⟩
    · cases goesOn
    · cases jump
    · cases test
  · exact not_moves_of_none (getElem?_eq_none (Nat.le_of_eq length))

/-! ## Values -/

/-- If the code of a routine finds the values that it needs, all points in its fields and statements
that paths come to do. -/
theorem fedFrom (supplied : parts.Supplied) :
    FedFrom parts.code ⟨0, 0⟩ 0 (parts.fields.length + parts.body.length) := by
  intro point arrives _ below instruction stands
  obtain ⟨index, depth⟩ := point
  by_cases isRet : instruction = .ret
  · subst isRet
    -- there is no return among the fields, so a statement asks for this one
    rcases Nat.lt_or_ge index parts.fields.length with inFields | behind
    · rw [MethodParts.code, append_assoc, getElem?_append_left inFields] at stands
      have straight := all_eq_true.mp makes.settles.straight _ (mem_of_getElem? stands)
      cases straight
    · obtain ⟨offset, rfl⟩ := Nat.exists_eq_add_of_le behind
      have inBody : offset < parts.body.length := Nat.lt_of_add_lt_add_left below
      rw [MethodParts.code, append_assoc, getElem?_append_right behind,
        Nat.add_sub_cancel_left, getElem?_append_left inBody] at stands
      exact supplied.returned stands arrives
  · have same : instruction.needs = instruction.pops := by
      cases instruction <;> first | rfl | exact absurd rfl isRet
    rw [same]
    exact supplied.enough arrives stands

/-- The code of a routine finds the values that it needs exactly if the routine is supplied. -/
theorem supplied_iff : parts.Supplied ↔ routine.isSupplied = true := by
  constructor
  · intro supplied
    have fed := makes.fedFrom supplied
    obtain ⟨emitter, final, emits⟩ := makes.emits
    have fields := makes.settles.quiet_of_fedFrom makes.placed.1
      (fed.mono .refl (Nat.le_refl _) (by omega))
    have body := emits.isSupplied makes.placed.2
      (fed.mono makes.arrives_body (Nat.zero_le _) (Nat.le_refl _))
    exact Bool.and_eq_true_iff.mpr ⟨List.all_eq_true.mpr fields, body⟩
  · intro supplied
    have safely : Safely parts.code (fun point => (∀ instruction,
        parts.code[point.index]? = some instruction → instruction.pops ≤ point.depth) ∧
        ∀ index, parts.body[index]? = some .ret → point.index = parts.fields.length + index →
          1 ≤ point.depth) (fun _ => False) ⟨0, 0⟩ := by
      have strict : True → routine.isSupplied = true := fun _ => supplied
      refine Safely.trans (Safely.mono (makes.safely strict) (fun point inside => ?_) fun _ => id) ?_
      · refine ⟨fun instruction stands => ?_, fun index returns here => ?_⟩
        · exact Nat.le_trans instruction.pops_le_needs (inside.fed trivial instruction stands)
        · refine inside.fed trivial .ret ?_
          rw [here]
          exact makes.placed.2.stands index .ret returns
      · -- behind the statements nothing more is needed
        rintro _ ⟨rfl, _⟩
        refine .step ⟨fun instruction stands => ?_, fun index returns here => ?_⟩ fun next moves =>
          absurd moves makes.not_moves_behind
        · rcases makes.stands_behind with ⟨stands', _⟩ | ⟨length, _⟩
          · obtain rfl : instruction = .ret := Option.some.inj (stands.symm.trans stands')
            exact Nat.le_refl 0
          · rw [List.getElem?_eq_none (Nat.le_of_eq length)] at stands
            cases stands
        · obtain rfl : parts.body.length = index := Nat.add_left_cancel here
          exact absurd (List.getElem?_eq_some_iff.mp returns).1 (Nat.lt_irrefl _)
    exact ⟨fun arrives => (safely.fine_of_arrives arrives).1 _, fun returns arrives =>
      (safely.fine_of_arrives arrives).2 _ returns rfl⟩

/-! ## Ends -/

/-- Control runs off the end of a routine exactly if it has a result and its statements complete. -/
theorem reached_end_iff : Reached parts.code parts.code.length ↔
    routine.result.isSome = true ∧ Stmt.blockCompletes routine.body = true := by
  obtain ⟨emitter, final, emits⟩ := makes.emits
  constructor
  · intro reached
    obtain ⟨depth, arrives⟩ := reached_iff.mp reached
    by_contra stays
    have inside : Safely parts.code (fun point => point.index < parts.code.length)
        (fun _ => False) ⟨0, 0⟩ := by
      have lenient : False → routine.isSupplied = true := False.elim
      refine ((makes.safely lenient).mono (fun point inside => ?_) fun _ => id).trans ?_
      · have most : parts.fields.length + parts.body.length ≤ parts.code.length := by
          rw [MethodParts.code, List.length_append, List.length_append]
          exact Nat.le_add_right _ _
        exact Nat.lt_of_lt_of_le inside.lt_high most
      · rintro _ ⟨rfl, completes⟩
        refine .step ?_ fun next moves => absurd moves makes.not_moves_behind
        rcases makes.stands_behind with ⟨stands, _⟩ | ⟨_, typed | returns⟩
        · exact (List.getElem?_eq_some_iff.mp stands).1
        · exact absurd ⟨typed, completes⟩ stays
        · rw [emits.not_completes_of_ret returns] at completes
          cases completes
    exact Nat.lt_irrefl _ (inside.fine_of_arrives arrives)
  · rintro ⟨typed, completes⟩
    have length : parts.code.length = parts.fields.length + parts.body.length := by
      rcases makes.stands_behind with ⟨_, untyped⟩ | ⟨length, _⟩
      · rw [untyped] at typed
        cases typed
      · exact length
    rw [length]
    exact reached_iff.mpr ⟨0, makes.arrives_body.trans (emits.arrives makes.placed.2 completes)⟩

/-- Where control does not go on inside the code of a routine, a return stands. -/
theorem ret_or_flows {index : Nat} (inside : index < parts.code.length) :
    parts.code[index]? = some .ret ∨ ∃ next, Flows parts.code index next := by
  obtain ⟨instruction, stands⟩ : ∃ instruction, parts.code[index]? = some instruction :=
    ⟨_, getElem?_eq_getElem inside⟩
  cases goesOn : instruction.goesOn with
  | true => exact .inr ⟨_, .next stands goesOn⟩
  | false =>
    cases instruction with
    | ret => exact .inl stands
    | jump label =>
      -- jumps stay in the code of the statements
      have target : label ∈ targetsIn parts.code :=
        mem_filterMap.mpr ⟨_, mem_of_getElem? stands, rfl⟩
      obtain ⟨emitter, final, emits⟩ := makes.emits
      rw [makes.targetsIn_eq] at target
      have stays := (emits.mem_labelsIn_of_target target).resolve_right nofun
      rw [← makes.labelsIn_eq] at stays
      obtain ⟨place, found⟩ := mem_labelsIn.mp stays
      exact .inr ⟨place, .jump stands found⟩
    | _ => cases goesOn

end Routine.Makes

/-! ## Classes -/

section Classes

variable {program : Program} {decl : ClassDecl}

/-- The code that sets up a new object is made from fields and statements. -/
theorem ClassDecl.InitLowersTo.exists_parts {code : MethodCode}
    (lowers : decl.InitLowersTo program code) :
    ∃ parts, Routine.Makes ⟨decl.fields, decl.init, none⟩ parts ∧ code.code = parts.code := by
  obtain ⟨low, fields, body, final, initial, lowered, rfl⟩ := lowers.exists_body
  exact ⟨⟨fields, body, [.ret]⟩, ⟨⟨_, initial⟩, ⟨_, _, lowered⟩, .inl ⟨rfl, rfl⟩⟩, rfl⟩

/-- The return that is added to the code of a method is left out if the method has a result or if its
code ends with a return. -/
theorem exists_closing (result : Option TypeRef) (code : List Instruction) :
    ∃ closing, closeCode result code = code ++ closing ∧
      ((closing = [.ret] ∧ result = none) ∨
        (closing = [] ∧ (result.isSome = true ∨ code.getLast? = some .ret))) := by
  cases result with
  | some type => exact ⟨[], (append_nil code).symm, .inr ⟨rfl, .inl rfl⟩⟩
  | none =>
    unfold closeCode
    split
    · exact ⟨[.ret], rfl, .inl ⟨rfl, rfl⟩⟩
    · next closed =>
        refine ⟨[], (append_nil code).symm, .inr ⟨rfl, .inr ?_⟩⟩
        cases last : code.getLast? with
        | none => simp [last] at closed
        | some instruction => cases instruction <;> simp [last, Instruction.isRet] at closed ⊢

/-- The code of a method is made from statements. -/
theorem Method.LowersTo.exists_parts {method : Method} {code : MethodCode}
    (lowers : method.LowersTo program decl code) :
    ∃ parts, Routine.Makes ⟨[], method.body, method.result⟩ parts ∧ code.code = parts.code := by
  obtain ⟨low, body, final, lowered, rfl⟩ := lowers.exists_body
  obtain ⟨closing, closed, why⟩ := exists_closing method.result body
  have fields : (Emitter.ofParams program decl method.params low).frame.fieldsCode [] = .ok [] := rfl
  exact ⟨⟨[], body, closing⟩, ⟨⟨_, fields⟩, ⟨_, _, lowered⟩, why⟩, closed⟩

/-- The method of a program without an entry method returns zero. -/
theorem makes_defaultMethod (owned : method ∈ defaultClass.methods) :
    Routine.Makes ⟨[], [.ret (.int "0" .start) .start], none⟩ ⟨[], method.code, []⟩ := by
  obtain rfl := mem_singleton.mp owned
  let emitter : Emitter := ⟨⟨⟨[]⟩, ⟨"", none, [], [], .start⟩, .empty⟩, 0⟩
  exact ⟨⟨emitter.frame, rfl⟩, ⟨emitter, emitter, rfl⟩, .inr ⟨rfl, .inr rfl⟩⟩

/-- Something holds of all methods of classes and of what they are made from, in order. -/
def Program.AllRoutines (program : Program) (codes : List ClassCode)
    (holds : Routine → MethodCode → Prop) : Prop :=
  List.Forall₂ (fun decl code => decl.LowersTo program code ∧
    List.Forall₂ holds decl.routines code.methods) program.classes codes

/-- What holds of all code that is made from a routine holds of all methods of an artifact. -/
theorem Program.allRoutines_of_lower {artifact : Artifact} (lowered : program.lower = .ok artifact)
    {holds : Routine → MethodCode → Prop} (all : ∀ {routine : Routine} {parts : MethodParts}
      {method : MethodCode}, routine.Makes parts → method.code = parts.code → holds routine method) :
    ∃ codes, artifact = program.artifactOf codes ∧ program.AllRoutines codes holds := by
  obtain ⟨codes, classes, rfl⟩ := Program.exists_classes_of_lower lowered
  refine ⟨codes, rfl, classes.imp fun decl code lowers => ⟨lowers, ?_⟩⟩
  obtain ⟨init, methods, first, later, rfl⟩ := lowers.exists_methods
  refine .cons ?_ (forall₂_map_left_iff.mpr (later.imp fun method code lowers => ?_))
  · obtain ⟨parts, makes, same⟩ := first.exists_parts
    exact all makes same
  · obtain ⟨parts, makes, same⟩ := lowers.exists_parts
    exact all makes same

/-- What holds of all methods of classes in order holds of each of them and what it is made from. -/
theorem Program.AllRoutines.exists_routine {codes : List ClassCode}
    {holds : Routine → MethodCode → Prop} (all : program.AllRoutines codes holds) {code : ClassCode}
    (mem : code ∈ codes) (owned : method ∈ code.methods) :
    ∃ decl ∈ program.classes, ∃ routine ∈ decl.routines, holds routine method := by
  obtain ⟨decl, declared, -, routines⟩ := exists_of_forall₂ all.flip mem
  obtain ⟨routine, listed, related⟩ := exists_of_forall₂ routines.flip owned
  exact ⟨decl, declared, routine, listed, related⟩

end Classes

/-! ## Builds -/

/-- In every build, the code of a method finds the values that it needs on all paths exactly if the
statements that control comes to, and the initial values of fields, use no call that writes a value
out as a value. The method of a program without an entry method always does. -/
theorem Build.supplied_of_compiled {optimize : Bool} {text : String} {analysis : Analysis}
    {artifact : Artifact}
    (compiled : (Build.ofText optimize text).outcome = .ok (.compiled analysis artifact)) :
    ∃ program source codes, Program.ofText text = .ok program ∧
      source = (if optimize then program.simplify else program) ∧
      artifact = source.artifactOf codes ∧
      source.AllRoutines codes (fun routine method => ∃ parts, routine.Makes parts ∧
        method.code = parts.code ∧ (parts.Supplied ↔ routine.isSupplied = true)) ∧
      ∀ method ∈ defaultClass.methods, MethodParts.Supplied ⟨[], method.code, []⟩ := by
  obtain ⟨program, read, -, -, lowered⟩ := Build.compiled_iff.mp compiled
  obtain ⟨codes, artifact_eq, all⟩ := Program.allRoutines_of_lower lowered
    fun {routine parts method} makes same =>
      (⟨parts, makes, same, makes.supplied_iff⟩ : ∃ parts, routine.Makes parts ∧
        method.code = parts.code ∧ (parts.Supplied ↔ routine.isSupplied = true))
  exact ⟨program, _, codes, read, rfl, artifact_eq, all, fun method owned =>
    (makes_defaultMethod owned).supplied_iff.mpr rfl⟩

/-- A class whose entry method has statements, without parameters and a result. -/
def entryClass (body : List Stmt) : Program :=
  ⟨[⟨"A", none, [], [.method ⟨"main", [], none, body, ⟨1, 12⟩⟩], ⟨1, 1⟩⟩]⟩

/-- A variable that is written out instead does no harm behind a return. -/
theorem Build.supplied_behindReturn : ∃ analysis artifact,
    (Build.ofText false "class A is method main is return 1 var x : write(2) end end").outcome =
      .ok (.compiled analysis artifact) ∧
    ∀ code ∈ artifact.classes, ∀ method ∈ code.methods, ∃ routine parts,
      Routine.Makes routine parts ∧ method.code = parts.code ∧ parts.Supplied := by
  let written : Expr := .call (.ident "write" [] ⟨1, 44⟩) [.int "2" ⟨1, 50⟩] ⟨1, 44⟩
  let program := entryClass [.ret (.int "1" ⟨1, 34⟩) ⟨1, 27⟩, .declare "x" written ⟨1, 36⟩]
  have read : Program.ofText "class A is method main is return 1 var x : write(2) end end" =
      .ok program := by decide +kernel
  have clean : program.analyze.isClean = true := by decide +kernel
  have lowers : ∃ artifact, program.lower = .ok artifact := ⟨_, rfl⟩
  obtain ⟨artifact, lowered⟩ := lowers
  have compiled : (Build.ofText false
      "class A is method main is return 1 var x : write(2) end end").outcome =
      .ok (.compiled program.analyze artifact) :=
    Build.compiled_iff.mpr ⟨_, read, clean, rfl, lowered⟩
  obtain ⟨program', source, codes, read', same, rfl, all, -⟩ := Build.supplied_of_compiled compiled
  obtain rfl : program = program' := Except.ok.inj (read.symm.trans read')
  obtain rfl : source = program := same
  refine ⟨_, _, compiled, fun code mem method owned => ?_⟩
  obtain ⟨decl, declared, routine, listed, parts, makes, same, exactly⟩ :=
    all.exists_routine mem owned
  have supplied : ∀ decl ∈ program.classes, ∀ routine ∈ decl.routines,
      routine.isSupplied = true := by decide
  exact ⟨routine, parts, makes, same, exactly.mpr (supplied decl declared routine listed)⟩

/-- A variable that is written out instead is stored from an empty stack. -/
theorem Build.pops_writtenVariable : ∃ analysis artifact method instruction,
    (Build.ofText true "class A is method main is var x : write(1) end end").outcome =
      .ok (.compiled analysis artifact) ∧
    artifact.method? "A" "main" = some method ∧ Arrives method.code ⟨0, 0⟩ ⟨2, 0⟩ ∧
    method.code[2]? = some instruction ∧ 0 < instruction.pops := by
  let written : Expr := .call (.ident "write" [] ⟨1, 35⟩) [.int "1" ⟨1, 41⟩] ⟨1, 35⟩
  let program := entryClass [.declare "x" written ⟨1, 27⟩]
  have read : Program.ofText "class A is method main is var x : write(1) end end" =
      .ok program := by decide +kernel
  have clean : program.analyze.isClean = true := by decide +kernel
  let code : List Instruction := [.const (.int 1), .call "write" 1, .storeLocal 0, .ret]
  have lowers : ∃ artifact, program.simplify.lower = .ok artifact ∧
      artifact.method? "A" "main" = some ⟨"main", [], ["x"], code⟩ := ⟨_, rfl, rfl⟩
  obtain ⟨artifact, lowered, found⟩ := lowers
  refine ⟨_, artifact, _, .storeLocal 0, Build.compiled_iff.mpr ⟨_, read, clean, rfl, lowered⟩, found,
    ?_, rfl, Nat.one_pos⟩
  have pushed : Moves code ⟨0, 0⟩ ⟨1, 1⟩ := ⟨_, rfl, .next rfl rfl, rfl⟩
  have written : Moves code ⟨1, 1⟩ ⟨2, 0⟩ := ⟨_, rfl, .next rfl rfl, rfl⟩
  exact .head pushed (.single written)

/-- Control that does not go on in a method stands at a return or has run off the end of the method,
and the latter happens exactly if something holds. -/
structure MethodCode.Returns (method : MethodCode) (runsOff : Prop) : Prop where
  /-- Control goes on, or stands at a return, or has run off the end. -/
  ends : ∀ {index : Nat}, Reached method.code index → (∀ next, ¬Flows method.code index next) →
    method.code[index]? = some .ret ∨ index = method.code.length
  /-- When control runs off the end. -/
  runsOff_iff : Reached method.code method.code.length ↔ runsOff

/-- Control in the code of a routine runs off its end if the routine has a result and completes. -/
theorem Routine.Makes.returns {routine : Routine} {parts : MethodParts}
    (makes : routine.Makes parts) (same : method.code = parts.code) :
    method.Returns (routine.result.isSome = true ∧ Stmt.blockCompletes routine.body = true) where
  ends {index} reached stays := by
    rcases Nat.lt_or_eq_of_le reached.le with inside | behind
    · rw [same] at inside stays ⊢
      exact .inl ((makes.ret_or_flows inside).resolve_right fun ⟨next, flows⟩ => stays next flows)
    · exact .inr behind
  runsOff_iff := by
    rw [same]
    exact makes.reached_end_iff

/-- In every build, control that does not go on in a method stands at a return or has run off the end
of the method. It runs off the end exactly if the method has a result and its statements complete, so
never in code that sets up a new object, in a method without a result or in the method of a program
without an entry method. -/
theorem Build.returns_of_compiled {optimize : Bool} {text : String} {analysis : Analysis}
    {artifact : Artifact}
    (compiled : (Build.ofText optimize text).outcome = .ok (.compiled analysis artifact)) :
    ∃ program source codes, Program.ofText text = .ok program ∧
      source = (if optimize then program.simplify else program) ∧
      artifact = source.artifactOf codes ∧
      source.AllRoutines codes (fun routine method => method.Returns
        (routine.result.isSome = true ∧ Stmt.blockCompletes routine.body = true)) ∧
      ∀ method ∈ defaultClass.methods, method.Returns False := by
  obtain ⟨program, read, -, -, lowered⟩ := Build.compiled_iff.mp compiled
  obtain ⟨codes, artifact_eq, all⟩ := Program.allRoutines_of_lower lowered Routine.Makes.returns
  refine ⟨program, _, codes, read, rfl, artifact_eq, all, fun method owned => ?_⟩
  have returns := (makes_defaultMethod owned).returns (append_nil method.code).symm
  exact ⟨returns.ends, returns.runsOff_iff.trans (by simp)⟩

/-- A class with a method that has a result. -/
def typedMethod (params : List Param) (type : Position) (body : List Stmt) : Program :=
  ⟨[⟨"A", none, [], [.method ⟨"f", params, some ⟨"Integer", [], type⟩, body, ⟨1, 12⟩⟩], ⟨1, 1⟩⟩]⟩

/-- A class with a method that returns on both ways of a branch. -/
def onBothWays : String :=
  "class A is method f(x : Boolean) : Integer is if x then return 1 else return 2 end end end"

/-- Control does not run off the end of this method. -/
theorem Build.returns_onBothWays : ∃ analysis artifact,
    (Build.ofText true onBothWays).outcome = .ok (.compiled analysis artifact) ∧
    ∀ code ∈ artifact.classes, ∀ method ∈ code.methods, method.Returns False := by
  let test : Expr := .ident "x" [] ⟨1, 50⟩
  let returned (text : String) (column : Nat) : Stmt := .ret (.int text ⟨1, column + 7⟩) ⟨1, column⟩
  let program := typedMethod [⟨"x", ⟨"Boolean", [], ⟨1, 25⟩⟩, ⟨1, 21⟩⟩] ⟨1, 36⟩
    [.branch test [returned "1" 57] (some [returned "2" 71]) ⟨1, 47⟩]
  have read : Program.ofText onBothWays = .ok program := by decide +kernel
  have clean : program.analyze.isClean = true := by decide +kernel
  have lowers : ∃ artifact, program.simplify.lower = .ok artifact := ⟨_, rfl⟩
  obtain ⟨artifact, lowered⟩ := lowers
  have compiled : (Build.ofText true onBothWays).outcome =
      .ok (.compiled program.analyze artifact) :=
    Build.compiled_iff.mpr ⟨_, read, clean, rfl, lowered⟩
  obtain ⟨program', source, codes, read', same, rfl, all, added⟩ :=
    Build.returns_of_compiled compiled
  obtain rfl : program = program' := Except.ok.inj (read.symm.trans read')
  obtain rfl : source = program.simplify := same
  refine ⟨_, _, compiled, fun code mem method owned => ?_⟩
  have stays : ∀ decl ∈ program.simplify.classes, ∀ routine ∈ decl.routines,
      ¬(routine.result.isSome = true ∧ Stmt.blockCompletes routine.body = true) := by decide
  rcases mem_append.mp mem with mem | mem
  · obtain ⟨decl, declared, routine, listed, returns⟩ := all.exists_routine mem owned
    have never := iff_false_intro (stays decl declared routine listed)
    exact ⟨returns.ends, returns.runsOff_iff.trans never⟩
  · obtain rfl := mem_singleton.mp mem
    exact added method owned

/-- Control runs off the end of a method that has a result and does not return one. -/
theorem Build.reached_end_missingReturn : ∃ analysis artifact method,
    (Build.ofText true "class A is method f : Integer is write(1) end end").outcome =
      .ok (.compiled analysis artifact) ∧
    artifact.method? "A" "f" = some method ∧ method.code = [.const (.int 1), .call "write" 1] ∧
    Reached method.code method.code.length := by
  let written : Expr := .call (.ident "write" [] ⟨1, 34⟩) [.int "1" ⟨1, 40⟩] ⟨1, 34⟩
  let program := typedMethod [] ⟨1, 23⟩ [.eval written ⟨1, 34⟩]
  have read : Program.ofText "class A is method f : Integer is write(1) end end" = .ok program := by
    decide +kernel
  have clean : program.analyze.isClean = true := by decide +kernel
  have lowers : ∃ artifact, program.simplify.lower = .ok artifact ∧ artifact.method? "A" "f" =
      some ⟨"f", [], [], [.const (.int 1), .call "write" 1]⟩ := ⟨_, rfl, rfl⟩
  obtain ⟨artifact, lowered, found⟩ := lowers
  refine ⟨_, artifact, _, Build.compiled_iff.mpr ⟨_, read, clean, rfl, lowered⟩, found, rfl, ?_⟩
  exact .head (.next rfl rfl) (.single (.next rfl rfl))

end ClassLang
