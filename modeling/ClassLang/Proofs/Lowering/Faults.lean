import ClassLang.Lowering
import ClassLang.Proofs.Lowering.Shape
import ClassLang.Proofs.Printing.Spelling
import ClassLang.Proofs.Resolution

/-! # Faults of lowering

`Stmt.blockUses` lists the expressions that the lowering of statements comes to, each with the frame
it is lowered against. If exits stand in loops and assignments go to names, a fault of lowering is
always the fault of such an expression, and a name is unknown only where its frame has no storage for
it. -/

namespace ClassLang

open List Stmt ClassLang.Expr

/-! ## Computations that fail -/

/-- A computation has no faults but such ones. -/
def Fails {α : Type} (computation : Except Fault α) (allowed : Fault → Prop) : Prop :=
  ∀ fault, computation = .error fault → allowed fault

namespace Fails

variable {α β : Type} {computation : Except Fault α} {allowed wider : Fault → Prop}

theorem mono (fails : Fails computation allowed) (wide : ∀ fault, allowed fault → wider fault) :
    Fails computation wider :=
  fun fault failure => wide fault (fails fault failure)

theorem ok (value : α) : Fails (.ok value) allowed := nofun

theorem error {fault : Fault} (holds : allowed fault) :
    Fails (.error fault : Except Fault α) allowed := by
  rintro _ ⟨⟩
  exact holds

/-- A computation in two steps fails where one of them does. -/
theorem bind {next : α → Except Fault β} (first : Fails computation allowed)
    (second : ∀ value, computation = .ok value → Fails (next value) allowed) :
    Fails (computation >>= next) allowed := by
  intro fault failure
  cases computation with
  | error other =>
    cases failure
    exact first _ rfl
  | ok value => exact second value rfl fault failure

theorem bind_pure {form : α → β} (fails : Fails computation allowed) :
    Fails (do return form (← computation)) allowed :=
  fails.bind fun _ _ => ok _

end Fails

/-! ## Faults of expressions -/

/-- Whether a name or a number is a literal that denotes no value. -/
def Word.isRefused : Kind × String → Bool
  | (.integer, text) => (Constant.intOfText? text).isNone
  | (.real, text) => (Constant.realOfText? text).isNone
  | _ => false

/-- The fault of an expression is never about its place. It is about an unknown name only if the name
occurs in the expression and has no storage, and about a literal only if the literal stands in the
expression and denotes no value. -/
def Fault.OfExpr (frame : Frame) (expr : Expr) (fault : Fault) : Prop :=
  match fault.cause with
  | .unknownIdentifier name =>
    frame.storage? name = none ∧ ⟨fault.position, name, false⟩ ∈ expr.occurrences
  | .invalidLiteral text =>
    ∃ kind, (kind, text) ∈ expr.spellings ∧ Word.isRefused (kind, text) = true
  | .invalidAssignTarget | .breakOutsideLoop => False
  | _ => True

/-- What is said of the faults of a part holds of the whole. -/
theorem Fails.ofPart {frame : Frame} {part whole : Expr} {computation : Lowered}
    (fails : Fails computation (Fault.OfExpr frame part))
    (occurs : part.occurrences ⊆ whole.occurrences) (spelled : part.spellings ⊆ whole.spellings) :
    Fails computation (Fault.OfExpr frame whole) := by
  refine fails.mono fun fault ofPart => ?_
  unfold Fault.OfExpr at ofPart ⊢
  split at ofPart
  · exact ⟨ofPart.1, occurs ofPart.2⟩
  · exact ofPart.imp fun _ refused => ⟨spelled refused.1, refused.2⟩
  · exact ofPart
  · exact ofPart
  · trivial

/-- The faults of an expression. -/
theorem Expr.ofExpr_lower (frame : Frame) (expr : Expr) :
    Fails (expr.lower frame) (Fault.OfExpr frame expr) := by
  -- the induction is on lowering itself: its cases say which parts are lowered before the whole
  fun_induction lower frame expr with
  | case1 text | case2 text =>
    unfold literalCode
    split
    · exact .ok _
    · next unread =>
        refine .error ⟨_, mem_singleton_self _, ?_⟩
        rw [Word.isRefused, ← Option.isNone_map, unread]
        rfl
  | case3 | case4 => exact .ok _
  | case5 name types =>
    unfold Frame.loadName
    split
    · exact .ok _
    · exact .ok _
    · next unknown => exact .error ⟨unknown, mem_singleton_self _⟩
  | case6 op left right _ leftKind rightKind leftIh rightIh =>
    refine Fails.bind (leftIh.ofPart (subset_append_left _ _) (subset_append_left _ _))
      fun _ _ => ?_
    exact (rightIh.ofPart (subset_append_right _ _) (subset_append_right _ _)).bind_pure
  | case7 target name =>
    unfold Frame.memberCode
    split
    · exact .ok _
    · exact .error trivial
  | case8 types _ argument _ ih =>
    exact (ih.ofPart (by simp [occurrences, listOccurrences])
      (by simp [spellings, listSpellings])).bind_pure
  | case9 name types _ argument _ notWrite type scalar ih =>
    exact (ih.ofPart (by simp [occurrences, listOccurrences])
      (by simp [spellings, listSpellings])).bind_pure
  | case12 receiver name _ _ operation found ih =>
    exact (ih.ofPart (by simp [occurrences]) (by simp [spellings])).bind_pure
  | case14 receiver name position argument position' operation found receiverKind argumentKind
      receiverIh argumentIh =>
    refine Fails.bind (receiverIh.ofPart (by simp [occurrences]) (by simp [spellings]))
      fun _ _ => ?_
    exact (argumentIh.ofPart (by simp [occurrences, listOccurrences])
      (by simp [spellings, listSpellings])).bind_pure
  | case10 | case11 | case13 | case15 | case16 | case17 => exact .error trivial

/-! ## Expressions that are lowered -/

namespace Stmt

mutual

/-- The expressions that the lowering of a statement comes to, each with its frame. The target of an
assignment is one of them. -/
def uses (exit? : Option Label) (emitter : Emitter) : Stmt → List (Expr × Frame)
  | .declare _ init _ => [(init, emitter.frame)]
  | .assign target value _ => [(value, emitter.frame), (target, emitter.frame)]
  | .branch test body none _ =>
    (test, emitter.frame) :: blockUses exit? emitter.takeLabels.enter body
  | .branch test body (some alternative) _ =>
    (test, emitter.frame) ::
      (blockUses exit? emitter.takeLabels.enter body ++
        match lowerBlock exit? emitter.takeLabels.enter body with
        | .ok (_, inner) => blockUses exit? inner.exit.enter alternative
        | .error _ => [])
  | .loop test body _ =>
    (test, emitter.frame) ::
      blockUses (some (.numbered (emitter.nextLabel + 1))) emitter.takeLabels.enter body
  | .ret value _ => [(value, emitter.frame)]
  | .leave _ => []
  | .eval value _ => [(value, emitter.frame)]

/-- The expressions that the lowering of statements comes to, each with its frame. It ends at the
first fault. -/
def blockUses (exit? : Option Label) (emitter : Emitter) : List Stmt → List (Expr × Frame)
  | [] => []
  | stmt :: rest =>
    stmt.uses exit? emitter ++
      match stmt.lower exit? emitter with
      | .ok (_, next) => blockUses exit? next rest
      | .error _ => []

end

/-- Lowering statements in a row comes to the expressions of the first ones, and then to those of the
others. -/
theorem blockUses_append (exit? : Option Label) (emitter : Emitter) (one two : List Stmt) :
    blockUses exit? emitter (one ++ two) =
      blockUses exit? emitter one ++
        match lowerBlock exit? emitter one with
        | .ok (_, next) => blockUses exit? next two
        | .error _ => [] := by
  induction one generalizing emitter with
  | nil => rfl
  | cons stmt rest ih =>
    rw [cons_append, blockUses, blockUses, lowerBlock, append_assoc]
    cases lowered : stmt.lower exit? emitter with
    | error fault => rfl
    | ok result =>
      obtain ⟨code, next⟩ := result
      dsimp only
      rw [ih]
      cases lowered' : lowerBlock exit? next rest with
      | error fault => simp [bind, Except.bind, lowered']
      | ok result => simp [bind, Except.bind, lowered', pure, Except.pure]

end Stmt

/-! ## Faults of statements -/

/-- Whether an expression is a name. -/
def Expr.isIdent : Expr → Bool
  | .ident _ _ _ => true
  | _ => false

mutual

/-- Whether exits stand in loops and assignments go to names in a statement. -/
def Stmt.wellPlaced (insideLoop : Bool) : Stmt → Bool
  | .assign target _ _ => target.isIdent
  | .branch _ body none _ => blockWellPlaced insideLoop body
  | .branch _ body (some alternative) _ =>
    blockWellPlaced insideLoop body && blockWellPlaced insideLoop alternative
  | .loop _ body _ => blockWellPlaced true body
  | .leave _ => insideLoop
  | _ => true

/-- Whether exits stand in loops and assignments go to names in statements. -/
def Stmt.blockWellPlaced (insideLoop : Bool) : List Stmt → Bool
  | [] => true
  | stmt :: rest => stmt.wellPlaced insideLoop && blockWellPlaced insideLoop rest

end

/-- A fault of lowering comes from one of the expressions that lowering came to. -/
def Fault.FromUse (uses : List (Expr × Frame)) (fault : Fault) : Prop :=
  ∃ use ∈ uses, use.1.lower use.2 = .error fault

theorem Expr.fromUse_lower {uses : List (Expr × Frame)} {expr : Expr} {frame : Frame}
    (mem : (expr, frame) ∈ uses) : Fails (expr.lower frame) (Fault.FromUse uses) :=
  fun _ failure => ⟨_, mem, failure⟩

/-- More expressions do not matter. -/
theorem Fails.moreUses {α : Type} {computation : Except Fault α} {uses more : List (Expr × Frame)}
    (fails : Fails computation (Fault.FromUse uses)) (inside : uses ⊆ more) :
    Fails computation (Fault.FromUse more) := by
  refine fails.mono ?_
  rintro fault ⟨use, mem, failure⟩
  exact ⟨use, inside mem, failure⟩

/-- The fault of an assignment to a name is that of its value or that of the name. -/
theorem Frame.fromUse_assignCode {frame : Frame} {target : Expr} (named : target.isIdent = true)
    (value : Expr) :
    Fails (frame.assignCode target value) (Fault.FromUse [(value, frame), (target, frame)]) := by
  cases target with
  | ident name types position =>
    refine .bind (fromUse_lower mem_cons_self) fun valueCode _ => ?_
    -- where the assignment has no place for the name, the name by itself has none to load from
    split
    · exact .ok _
    · exact .ok _
    · next unknown =>
        refine .error ⟨_, mem_cons_of_mem _ (mem_singleton_self _), ?_⟩
        change frame.loadName name position = _
        rw [loadName, unknown]
  | _ => cases named

mutual

/-- A fault of a statement comes from one of the expressions that lowering came to. -/
theorem Stmt.fromUse_lower {exit? : Option Label} (emitter : Emitter) {stmt : Stmt}
    (placed : stmt.wellPlaced exit?.isSome = true) :
    Fails (stmt.lower exit? emitter) (Fault.FromUse (stmt.uses exit? emitter)) := by
  cases stmt with
  | declare name value | ret value | eval value =>
    rw [lower]
    exact (Expr.fromUse_lower (mem_singleton_self _)).bind_pure
  | assign target value =>
    rw [lower]
    exact (Frame.fromUse_assignCode placed value).bind_pure
  | branch test body alternative =>
    cases alternative with
    | none =>
      rw [lower]
      refine .bind (Expr.fromUse_lower mem_cons_self) fun testCode _ => ?_
      exact ((fromUse_lowerBlock _ placed).moreUses (subset_cons_self _ _)).bind_pure
    | some alternative =>
      rw [wellPlaced, Bool.and_eq_true] at placed
      rw [lower]
      refine .bind (Expr.fromUse_lower mem_cons_self) fun testCode _ => ?_
      refine .bind ((fromUse_lowerBlock _ placed.1).moreUses ?_) fun ⟨bodyCode, inner⟩ taken => ?_
      · exact List.Subset.trans (subset_append_left _ _) (subset_cons_self _ _)
      refine ((fromUse_lowerBlock _ placed.2).moreUses ?_).bind_pure
      rw [uses, taken]
      exact List.Subset.trans (subset_append_right _ _) (subset_cons_self _ _)
  | loop test body =>
    have inside : blockWellPlaced (some (Label.numbered (emitter.nextLabel + 1))).isSome body =
        true := placed
    rw [lower]
    refine .bind (Expr.fromUse_lower mem_cons_self) fun testCode _ => ?_
    exact ((fromUse_lowerBlock _ inside).moreUses (subset_cons_self _ _)).bind_pure
  | leave =>
    -- a well placed exit stands in a loop, whose end is known
    cases exit? with
    | none => cases placed
    | some endLabel => exact .ok _

theorem Stmt.fromUse_lowerBlock {exit? : Option Label} (emitter : Emitter) {block : List Stmt}
    (placed : blockWellPlaced exit?.isSome block = true) :
    Fails (lowerBlock exit? emitter block) (Fault.FromUse (blockUses exit? emitter block)) := by
  cases block with
  | nil => exact .ok _
  | cons stmt rest =>
    rw [blockWellPlaced, Bool.and_eq_true] at placed
    rw [lowerBlock, blockUses]
    refine .bind ((fromUse_lower _ placed.1).moreUses (subset_append_left _ _))
      fun ⟨code, next⟩ lowered => ?_
    rw [lowered]
    exact ((fromUse_lowerBlock _ placed.2).moreUses (subset_append_right _ _)).bind_pure

end

/-! ## Faults of classes -/

/-- The statements of a class that are lowered, with their parameters. An initial value of a field
counts as a statement. -/
inductive ClassDecl.Lowers (decl : ClassDecl) : List Param → List Stmt → Prop
  | field {field} (owned : field ∈ decl.fields) : Lowers decl [] [.eval field.init field.position]
  | init : Lowers decl [] decl.init
  | method {method} (owned : method ∈ decl.methods) : Lowers decl method.params method.body

/-- The fault of a class comes from the lowering of some of its statements. -/
def Fault.InClass (program : Program) (decl : ClassDecl) (fault : Fault) : Prop :=
  ∃ params block low, decl.Lowers params block ∧
    lowerBlock none (Emitter.ofParams program decl params low) block = .error fault

/-- The fault of initial values comes from one of them. -/
theorem Frame.fails_fieldsCode (frame : Frame) (fields : List Field) :
    Fails (frame.fieldsCode fields)
      fun fault => ∃ field ∈ fields, field.init.lower frame = .error fault := by
  induction fields with
  | nil => exact .ok _
  | cons field rest ih =>
    refine .bind (fun _ failure => ⟨field, mem_cons_self, failure⟩) fun _ _ => ?_
    refine (ih.mono ?_).bind_pure
    rintro fault ⟨later, mem, failure⟩
    exact ⟨later, mem_cons_of_mem _ mem, failure⟩

section Classes

variable {program : Program} {decl : ClassDecl} {low : Nat}

/-- The fault of the method that sets up an object. -/
theorem ClassDecl.inClass_lowerInit :
    Fails (decl.lowerInit program low) (Fault.InClass program decl) := by
  refine .bind ((Frame.fails_fieldsCode _ _).mono ?_) fun _ _ => ?_
  · rintro fault ⟨field, owned, failure⟩
    -- the labels taken before do not matter for an initial value
    refine ⟨_, _, low, .field owned, ?_⟩
    rw [Stmt.lowerBlock, Stmt.lower, failure]
    rfl
  · exact Fails.bind_pure fun _ failure => ⟨_, _, low, .init, failure⟩

/-- The fault of methods. -/
theorem ClassDecl.inClass_lowerMethods {methods : List Method}
    (owned : ∀ method ∈ methods, method ∈ decl.methods) :
    Fails (lowerMethods program decl low methods) (Fault.InClass program decl) := by
  induction methods generalizing low with
  | nil => exact .ok _
  | cons method rest ih =>
    obtain ⟨here, later⟩ := forall_mem_cons.mp owned
    refine .bind (Fails.bind_pure fun _ failure => ⟨_, _, low, .method here, failure⟩) fun _ _ => ?_
    exact (ih later).bind_pure

theorem ClassDecl.inClass_lower : Fails (decl.lower program low) (Fault.InClass program decl) :=
  ClassDecl.inClass_lowerInit.bind fun _ _ =>
    (ClassDecl.inClass_lowerMethods fun _ owned => owned).bind_pure

end Classes

/-- A class of a program is the one that is being lowered when a fault shows: those before it have
been lowered, and its own lowering has the fault. -/
def Program.StopsIn (program : Program) (decl : ClassDecl) (fault : Fault) : Prop :=
  ∃ before after low, program.classes = before ++ decl :: after ∧
    (∀ earlier ∈ before, ∃ low result, earlier.lower program low = .ok result) ∧
    decl.lower program low = .error fault

/-- The fault of classes shows in one of them. -/
theorem Program.fails_lowerClasses (program : Program) (classes : List ClassDecl) (low : Nat) :
    Fails (lowerClasses program low classes) fun fault =>
      ∃ (before : List ClassDecl) (decl : ClassDecl) (after : List ClassDecl) (low' : Nat),
        classes = before ++ decl :: after ∧
        (∀ earlier ∈ before, ∃ low result, earlier.lower program low = .ok result) ∧
        decl.lower program low' = .error fault := by
  induction classes generalizing low with
  | nil => exact .ok _
  | cons decl rest ih =>
    refine .bind (fun _ failure => ⟨[], decl, rest, low, rfl, forall_mem_nil _, failure⟩)
      fun ⟨code, next⟩ lowered => ?_
    refine ((ih next).mono ?_).bind_pure
    rintro fault ⟨before, later, after, low', rfl, earlier, failure⟩
    refine ⟨decl :: before, later, after, low', rfl, ?_, failure⟩
    exact forall_mem_cons.mpr ⟨⟨low, _, lowered⟩, earlier⟩

/-- The fault of a program shows in one of its classes. -/
theorem Program.exists_stopsIn {program : Program} :
    Fails program.lower fun fault => ∃ decl, program.StopsIn decl fault := by
  refine .bind ((program.fails_lowerClasses _ _).mono ?_) fun _ _ => ?_
  · rintro fault ⟨before, decl, after, low, classes, earlier, failure⟩
    exact ⟨decl, before, after, low, classes, earlier, failure⟩
  · split <;> exact .ok _

end ClassLang
