import ClassLang.Proofs.Folding

/-! # Simplification keeps the meaning

Statements and their simplified form have the same meaning, as long as no declaration moves out of
the branch it stands in. A branch whose test is known loses its scope, which makes no difference if
nothing is declared in it; what follows a return is never executed. -/

namespace ClassLang

open Stmt ClassLang.Expr Meaning

variable {V S : Type}

mutual

/-- Whether no branch in a statement whose test is known declares something at the top of the block
that is to take its place. -/
def Stmt.hoistsNothing : Stmt → Bool
  | .branch test body none _ =>
    blockHoistsNothing body &&
      !(test.fold.asBool? = some true && (simplifyBlock body).any isDeclaration)
  | .branch test body (some alternative) _ =>
    blockHoistsNothing body && blockHoistsNothing alternative &&
      !(test.fold.asBool? = some true && (simplifyBlock body).any isDeclaration) &&
      !(test.fold.asBool? = some false && (simplifyBlock alternative).any isDeclaration)
  | .loop _ body _ => blockHoistsNothing body
  | _ => true

/-- Whether no branch in statements whose test is known declares something at the top of the block
that is to take its place. -/
def Stmt.blockHoistsNothing : List Stmt → Bool
  | [] => true
  | stmt :: rest => stmt.hoistsNothing && blockHoistsNothing rest

end

section Meaning

variable {setting : Setting V S}

/-! ## Blocks and returns -/

/-- Blocks in sequence. -/
theorem Meaning.sequence_assoc (first second third : Meaning V S) :
    (first.sequence second).sequence third = first.sequence (second.sequence third) := by
  funext state completion after
  apply propext
  constructor
  · rintro (⟨middle, ⟨between, one, two⟩ | ⟨abrupt, _⟩, three⟩ | ⟨abrupt, ⟨between, one, two⟩ | ⟨_, one⟩⟩)
    · exact .inl ⟨between, one, .inl ⟨middle, two, three⟩⟩
    · exact absurd rfl abrupt
    · exact .inl ⟨between, one, .inr ⟨abrupt, two⟩⟩
    · exact .inr ⟨abrupt, one⟩
  · rintro (⟨between, one, ⟨middle, two, three⟩ | ⟨abrupt, two⟩⟩ | ⟨abrupt, one⟩)
    · exact .inl ⟨middle, .inl ⟨between, one, two⟩, three⟩
    · exact .inr ⟨abrupt, .inl ⟨between, one, two⟩⟩
    · exact .inr ⟨abrupt, .inr ⟨abrupt, one⟩⟩

/-- Doing nothing first. -/
theorem Meaning.complete_sequence (second : Meaning V S) :
    (complete .normal).sequence second = second := by
  funext state completion after
  apply propext
  constructor
  · rintro (⟨middle, ⟨_, rfl⟩, rest⟩ | ⟨abrupt, rfl, _⟩)
    · exact rest
    · exact absurd rfl abrupt
  · exact fun ran => .inl ⟨state, ⟨rfl, rfl⟩, ran⟩

/-- The statements of two blocks one after the other. -/
theorem Stmt.execBlock_append (first second : List Stmt) :
    execBlock setting (first ++ second) =
      (execBlock setting first).sequence (execBlock setting second) := by
  induction first with
  | nil => rw [List.nil_append, execBlock, complete_sequence]
  | cons stmt rest ih => rw [List.cons_append, execBlock, execBlock, ih, sequence_assoc]

/-- What follows statements that never complete normally is not executed. -/
theorem Meaning.sequence_of_abrupt {first : Meaning V S}
    (abrupt : ∀ state after, ¬first state .normal after) (second : Meaning V S) :
    first.sequence second = first := by
  funext state completion after
  apply propext
  constructor
  · rintro (⟨middle, ran, _⟩ | ⟨_, ran⟩)
    · exact absurd ran (abrupt state middle)
    · exact ran
  · intro ran
    refine .inr ⟨?_, ran⟩
    rintro rfl
    exact abrupt state after ran

/-- A return does not complete normally. -/
theorem Stmt.not_normal_of_isReturn {stmt : Stmt} (isReturn : stmt.isReturn = true)
    (state after : State V S) : ¬stmt.exec setting state .normal after := by
  cases stmt with
  | ret value =>
    rw [exec, evaluate]
    split
    · rintro ⟨⟨⟩, _⟩
    · rintro ⟨⟨⟩, _⟩
  | _ => cases isReturn

/-- A block that ends in a return does not complete normally. -/
theorem Stmt.not_normal_of_endsInReturn {block : List Stmt} (ends : endsInReturn block = true)
    (state after : State V S) : ¬execBlock setting block state .normal after := by
  unfold endsInReturn at ends
  rcases List.eq_nil_or_concat block with rfl | ⟨init, last, rfl⟩
  · cases ends
  · rw [List.concat_eq_append, List.getLast?_concat, Option.any_some] at ends
    rw [List.concat_eq_append, execBlock_append, execBlock_singleton]
    rintro (⟨middle, _, ran⟩ | ⟨abrupt, _⟩)
    · exact not_normal_of_isReturn ends _ _ ran
    · exact absurd rfl abrupt

/-! ## Tests -/

theorem Expr.test_fold (lawful : setting.operators.Lawful) (expr : Expr) :
    expr.fold.test setting = expr.test setting := by
  funext environment
  rw [test, test, eval_fold lawful]

/-- A test that is folded to a truth value is decided. -/
theorem Expr.test_of_asBool {expr : Expr} {truth : Bool} (lawful : setting.operators.Lawful)
    (decided : expr.fold.asBool? = some truth) : expr.test setting = fun _ => pure truth := by
  funext environment
  obtain ⟨value, denotes⟩ := lawful.constant (.bool truth)
  have known : Constant.ofExpr? expr.fold = some (.bool truth) := by
    unfold asBool? at decided
    split at decided
    · next literal =>
        cases decided
        rw [literal]
        rfl
    · cases decided
  rw [test, ← eval_fold lawful, eval_of_known known denotes, pure_bind,
    lawful.truth truth value denotes]
  rfl

theorem Meaning.evaluate_pure {α : Type} (value : α) (next : α → Meaning V S) :
    evaluate (fun _ => pure value) next = next value := rfl

namespace Expr

/-- Folding keeps the calls that write something out. -/
theorem written?_fold (expr : Expr) : expr.fold.written? = expr.written?.map fold := by
  have unnamed {callee : Expr} (notNamed : callee.isNamed = false) (arguments : List Expr)
      (position : Position) : (call callee arguments position).written? = none := by
    cases callee with
    | ident | member => cases notNamed
    | _ => rfl
  cases expr with
  | binary op left right position =>
    rw [fold]
    rcases combine_cases op left.fold right.fold position with
      combined | ⟨_, _, result, _, _, _, combined⟩
    · rw [combined]
      rfl
    · rw [combined]
      cases result <;> rfl
  | call callee arguments =>
    rw [fold]
    cases callee with
    | ident name types place =>
      rcases arguments with _ | ⟨argument, _ | ⟨second, rest⟩⟩
      · rfl
      · change (if name = writeRoutine then some argument.fold else none) =
          (if name = writeRoutine then some argument else none).map fold
        split <;> rfl
      · rfl
    | binary op left right place =>
      rw [unnamed (isNamed_fold _)]
      rfl
    | _ => rfl
  | _ => rfl

/-- Folding does not change the effect of an expression. -/
theorem perform_fold (lawful : setting.operators.Lawful) (expr : Expr) :
    expr.fold.perform setting = expr.perform setting := by
  funext environment
  unfold perform
  rw [written?_fold]
  cases expr.written? with
  | some argument => simp only [Option.map_some, eval_fold lawful]
  | none => simp only [Option.map_none, eval_fold lawful]

end Expr

/-! ## Statements -/

/-- A decided branch that declares nothing at its top needs no scope. -/
theorem Stmt.enclosed_execBlock (setting : Setting V S) {block : List Stmt}
    (nothing : block.any isDeclaration = false) :
    (execBlock setting block).enclosed = execBlock setting block :=
  (blind_execBlock block fun _ => nothing).enclosed_eq

/-- A loop whose test fails does nothing. -/
theorem Meaning.iterate_of_false {test : Environment V → Evaluation V S Bool} {body : Meaning V S}
    (fails : test = fun _ => pure false) : Iterate test body = .complete .normal := by
  subst fails
  funext state completion after
  apply propext
  constructor
  · intro ran
    cases ran with
    | done tested =>
      cases tested
      exact ⟨rfl, rfl⟩
    | trap tested | again tested | left tested | stop tested => cases tested
  · rintro ⟨rfl, rfl⟩
    exact .done rfl

mutual

/-- The statements that take the place of a statement mean what it means. -/
theorem Stmt.execBlock_simplify (lawful : setting.operators.Lawful) (stmt : Stmt)
    (keeps : stmt.hoistsNothing = true) : execBlock setting stmt.simplify = stmt.exec setting := by
  cases stmt with
  | declare name init =>
    rw [simplify, execBlock_singleton, exec, exec]
    simp only [eval_fold lawful, Setting.typed_fold]
  | assign target value =>
    rw [simplify, execBlock_singleton, exec, exec]
    simp only [eval_fold lawful]
  | branch test body alternative =>
    have tested := test_fold lawful test
    cases alternative with
    | none =>
      rw [hoistsNothing, Bool.and_eq_true] at keeps
      have inner := execBlock_simplifyBlock lawful body keeps.1
      rw [simplify, exec]
      split
      · next decided =>
          have nothing : (simplifyBlock body).any isDeclaration = false := by
            simpa [decided] using keeps.2
          rw [test_of_asBool lawful decided, evaluate_pure, if_pos rfl, ← inner,
            enclosed_execBlock setting nothing]
      · next decided =>
          rw [test_of_asBool lawful decided, evaluate_pure, if_neg Bool.false_ne_true,
            execBlock]
      · rw [execBlock_singleton, exec, tested, inner]
    | some alternative =>
      rw [hoistsNothing] at keeps
      simp only [Bool.and_eq_true] at keeps
      obtain ⟨⟨⟨bodyKeeps, alternativeKeeps⟩, notBody⟩, notAlternative⟩ := keeps
      have inner := execBlock_simplifyBlock lawful body bodyKeeps
      have other := execBlock_simplifyBlock lawful alternative alternativeKeeps
      rw [simplify, exec]
      split
      · next decided =>
          have nothing : (simplifyBlock body).any isDeclaration = false := by
            simpa [decided] using notBody
          rw [test_of_asBool lawful decided, evaluate_pure, if_pos rfl, ← inner,
            enclosed_execBlock setting nothing]
      · next decided =>
          have nothing : (simplifyBlock alternative).any isDeclaration = false := by
            simpa [decided] using notAlternative
          rw [test_of_asBool lawful decided, evaluate_pure,
            if_neg Bool.false_ne_true, ← other, enclosed_execBlock setting nothing]
      · rw [execBlock_singleton, exec, tested, inner, other]
  | loop test body =>
    rw [hoistsNothing] at keeps
    have inner := execBlock_simplifyBlock lawful body keeps
    rw [simplify, exec]
    split
    · next decided =>
        rw [iterate_of_false (test_of_asBool lawful decided), execBlock]
    · rw [execBlock_singleton, exec, test_fold lawful, inner]
  | ret value =>
    rw [simplify, execBlock_singleton, exec, exec]
    simp only [eval_fold lawful]
  | leave => rw [simplify, execBlock_singleton]
  | eval value =>
    rw [simplify, execBlock_singleton, exec, exec, perform_fold lawful]

theorem Stmt.execBlock_simplifyBlock (lawful : setting.operators.Lawful) (block : List Stmt)
    (keeps : blockHoistsNothing block = true) :
    execBlock setting (simplifyBlock block) = execBlock setting block := by
  cases block with
  | nil => rfl
  | cons stmt rest =>
    rw [blockHoistsNothing, Bool.and_eq_true] at keeps
    have first := execBlock_simplify lawful stmt keeps.1
    have second := execBlock_simplifyBlock lawful rest keeps.2
    rw [simplifyBlock, execBlock]
    split
    · next ends =>
        have abrupt (state after : State V S) : ¬stmt.exec setting state .normal after := by
          rw [← first]
          exact not_normal_of_endsInReturn ends state after
        rw [first, sequence_of_abrupt abrupt]
    · rw [execBlock_append, first, second]

end

end Meaning

/-- Statements and their simplified form behave alike, if no declaration moves out of a branch: from
every state they complete in the same ways, with the same output, fields and variables, for every
meaning of the operators that is exact on constants. -/
theorem Stmt.simplifyBlock_iff {setting : Setting V S} (lawful : setting.operators.Lawful)
    {block : List Stmt} (keeps : blockHoistsNothing block = true) (state after : State V S)
    (completion : Completion V) :
    execBlock setting (simplifyBlock block) state completion after ↔
      execBlock setting block state completion after := by
  rw [execBlock_simplifyBlock lawful block keeps]

/-- Constants as values, with what is computed from them. -/
def constantOperators : Operators Constant Unit where
  constant := some
  self := .bool false
  truth
    | .bool truth => some truth
    | _ => none
  binary op left right :=
    (Constant.binary? op left.value right.value).bind fun result =>
      Constant.ofExpr? (result.toExpr ⟨1, 1⟩)
  routine _ _ _ := none
  operation _ _ _ _ := none
  apply _ _ _ := none
  member _ _ _ := none
  readField _ _ _ _ := none
  writeField _ _ _ _ _ := none

/-- Constants as values are exact. -/
theorem constantOperators_lawful : constantOperators.Lawful where
  constant constant := ⟨constant, rfl⟩
  truth := by
    rintro truth value ⟨⟩
    rfl
  integers := by
    rintro op left right first second _ _ nonzero inRange ⟨⟩ ⟨⟩
    have computed := Constant.binary?_int.mpr ⟨rfl, nonzero, inRange⟩
    change (Constant.binary? op (.int left) (.int right)).bind _ = some _
    rw [computed, Option.bind_some,
      Constant.ofExpr?_toExpr inRange (Constant.kind_exact_ne_real op left right)]
  equal := by
    rintro left right first second ⟨⟩ ⟨⟩
    rfl
  unequal := by
    rintro left right first second ⟨⟩ ⟨⟩
    rfl
  reals := by
    rintro op left right first second result position _ computed ⟨⟩ ⟨⟩
    change (Constant.binary? op left right).bind _ = _
    rw [computed, Option.bind_some]
    cases result <;> exact (Option.bind_fun_some _).symm

/-- A return inside two branches whose tests are computed, before a loop that never ends. -/
def nestedReturn : List Stmt :=
  let here : Position := ⟨1, 1⟩
  [.branch (.binary .lt (.int "1" here) (.int "2" here) here)
     [.branch (.binary .ne (.bool true here) (.bool false here) here)
       [.ret (.binary .mul (.int "2" here) (.int "3" here) here) here] none here] none here,
   .loop (.bool true here) [] here]

/-- Only the return is left of these statements, and they return its value. -/
theorem Stmt.simplifyBlock_nestedReturn :
    constantOperators.Lawful ∧ blockHoistsNothing nestedReturn = true ∧
    simplifyBlock nestedReturn = [.ret (.int "6" ⟨1, 1⟩) ⟨1, 1⟩] ∧
    execBlock ⟨constantOperators, ⟨[]⟩, ⟨"A", none, [], [], ⟨1, 1⟩⟩⟩ nestedReturn
      ⟨⟨[[]]⟩, ⟨(), []⟩⟩ (.returned (.int 6)) ⟨⟨[[]]⟩, ⟨(), []⟩⟩ := by
  have keeps : blockHoistsNothing nestedReturn = true := rfl
  have simplified : simplifyBlock nestedReturn = [.ret (.int "6" ⟨1, 1⟩) ⟨1, 1⟩] := rfl
  refine ⟨constantOperators_lawful, keeps, simplified, ?_⟩
  refine (simplifyBlock_iff constantOperators_lawful keeps _ _ _).mp ?_
  rw [simplified, execBlock_singleton]
  exact ⟨rfl, rfl⟩

end ClassLang
