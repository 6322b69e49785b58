import ClassLang.Proofs.Lowering.Survivors

/-! # Kinds in simplified programs

Where the kinds of operands are known, code converts integers to doubles and back, so what is known
of kinds shows in code. The kind of a variable is that of its initial value, whatever its form, but
the kind of a field is known only if its initial value is a literal. Folding makes literals, and so it
makes kinds of fields known that were not. In a program that captures no name this is all that
changes. -/

namespace ClassLang

open List ClassLang.Expr Scalar ClassLang.Frame Locals Stmt

variable {expr : Expr} {name : String} {stmt : Stmt}

/-! ## Relations between kinds -/

/-- Whether a relation between kinds holds of results if it holds of operands. -/
structure Scalar.Compatible (rel : Option Scalar → Option Scalar → Prop) : Prop where
  refl : ∀ kind, rel kind kind
  /-- Arithmetic keeps the relation. -/
  promote : ∀ {first first' second second' : Option Scalar}, rel first first' →
    rel second second' → rel (promote first second) (promote first' second')

/-- Whether a kind that is known before is known after. -/
def Scalar.StaysKnown (before after : Option Scalar) : Prop :=
  ∀ kind, before = some kind → after = some kind

namespace Scalar

theorem compatible_eq : Compatible Eq where
  refl _ := rfl
  promote first second := by rw [first, second]

/-- Kinds that stay known. -/
theorem compatible_staysKnown : Compatible StaysKnown where
  refl _ _ known := known
  promote {first first' second second'} stays stays' := by
    intro kind known
    cases first with
    | none =>
      cases second with
      | none => cases known
      | some kind' =>
        rw [stays' kind' rfl]
        cases kind' with
        | real =>
          cases known
          cases first' with
          | none => rfl
          | some kind => cases kind <;> rfl
        | int | bool => cases known
    | some kind' =>
      rw [stays kind' rfl]
      cases second with
      | some kind'' => rw [stays' kind'' rfl, known]
      | none =>
        cases kind' with
        | real =>
          cases known
          rfl
        | int | bool => cases known

variable {rel : Option Scalar → Option Scalar → Prop} {first first' second second' : Option Scalar}

/-- Operations keep the relation. -/
theorem Compatible.kindOfOperation (compatible : Compatible rel) (operation : Operation)
    (receiver : rel first first') (argument : rel second second') :
    rel (kindOfOperation operation first second)
      (kindOfOperation operation first' second') := by
  unfold Frame.kindOfOperation
  split
  · exact compatible.promote receiver argument
  · cases operation with
    | and | or | xor => exact receiver
    | _ => exact compatible.refl _

end Scalar

/-- A literal that was computed has the same kind in all frames. -/
theorem Frame.kindOf_fold_of_isComputed (before after : Frame) (computed : expr.isComputed = true) :
    before.kindOf expr.fold = after.kindOf expr.fold := by
  cases expr with
  | binary op left right position =>
    obtain ⟨result, known⟩ := Option.isSome_iff_exists.mp computed
    rw [fold, combine_eq, known]
    change before.kindOf (result.toExpr position) = after.kindOf (result.toExpr position)
    rw [kindOf_toExpr, kindOf_toExpr]
  | _ => cases computed

section Related

variable {rel : Option Scalar → Option Scalar → Prop} {before after : Frame}

/-- The kinds of an expression before and after are related if those of the names left of it are. -/
theorem Scalar.Compatible.kindOf (compatible : Compatible rel)
    (names : ∀ name types position, .ident name types position ∈ expr.lasting →
      rel (before.kindOfName name) (after.kindOfName name)) :
    rel (before.kindOf expr) (after.kindOf expr.fold) := by
  induction expr using operand_induction with
  | step expr ih =>
    cases computed : expr.isComputed with
    | true =>
      rw [← before.kindOf_fold, kindOf_fold_of_isComputed before after computed]
      exact compatible.refl _
    | false =>
      have operand {operand : Expr} (mem : operand ∈ expr.operands) :
          rel (before.kindOf operand) (after.kindOf operand.fold) :=
        ih operand mem fun name types position left =>
          names name types position (lasting_subset_of_operand computed mem left)
      cases expr with
      | int | real | bool | self | member => exact compatible.refl _
      | ident name types position =>
        exact names name types position (mem_singleton_self _)
      | binary op left right =>
        rw [fold_binary computed, Frame.kindOf, Frame.kindOf]
        split
        · exact compatible.refl _
        · exact compatible.promote (operand (by simp [operands]))
            (operand (by simp [operands]))
      | call callee arguments =>
        cases named : callee.isNamed with
        | false =>
          have folded : callee.fold.isNamed = false := by rw [isNamed_fold, named]
          rw [kindOf_call before named, fold, kindOf_call after folded]
          exact compatible.refl _
        | true =>
          cases callee with
          | ident => exact compatible.refl _
          | member receiver name place =>
            have first := operand mem_cons_self
            cases arguments with
            | nil =>
              rw [fold, fold, foldList, Frame.kindOf, Frame.kindOf]
              cases Operation.ofName? name with
              | none => exact compatible.refl _
              | some operation =>
                exact compatible.kindOfOperation operation first (compatible.refl _)
            | cons argument rest =>
              have second := operand (mem_cons_of_mem _ mem_cons_self)
              rw [fold, fold, foldList, Frame.kindOf, Frame.kindOf]
              cases Operation.ofName? name with
              | none => exact compatible.refl _
              | some operation =>
                exact compatible.kindOfOperation operation first second
          | _ => cases named

end Related

/-! ## Frames before and after -/

/-- What is known of the variable of a name. -/
def Locals.info? {ι : Type} (locals : Locals ι) (name : String) : Option ι :=
  (locals.lookup name).map Local.info

namespace Frame

variable {frame : Frame}

/-- Statements leave the program and the class as they are. -/
theorem pastAll_program_decl (frame : Frame) (block : List Stmt) :
    (frame.pastAll block).program = frame.program ∧ (frame.pastAll block).decl = frame.decl := by
  induction block generalizing frame with
  | nil => exact ⟨rfl, rfl⟩
  | cons stmt rest ih =>
    have here : (frame.past stmt).program = frame.program ∧
        (frame.past stmt).decl = frame.decl := by
      cases stmt <;> exact ⟨rfl, rfl⟩
    exact ⟨(ih _).1.trans here.1, (ih _).2.trans here.2⟩

/-- Some scope is open behind statements. -/
theorem scopes_pastAll_ne_nil (nonempty : frame.locals.scopes ≠ []) (block : List Stmt) :
    (frame.pastAll block).locals.scopes ≠ [] := by
  induction block generalizing frame with
  | nil => exact nonempty
  | cons stmt rest ih =>
    refine ih ?_
    cases stmt with
    | declare name init => exact scopes_declare_ne_nil nonempty name _
    | _ => exact nonempty

/-- Statements leave the names that they do not declare as they are. -/
theorem lookup_pastAll (frame : Frame) {block : List Stmt}
    (absent : ∀ declared ∈ declaredOnTop block, declared.1 ≠ name) :
    (frame.pastAll block).locals.lookup name = frame.locals.lookup name := by
  induction block generalizing frame with
  | nil => rfl
  | cons stmt rest ih =>
    have later := ih (frame.past stmt) fun declared mem =>
      absent declared (mem_declaredOnTop_cons.mpr (.inr mem))
    refine later.trans ?_
    cases stmt with
    | declare other init position =>
      have different := absent (other, position) (mem_declaredOnTop_cons.mpr (.inl rfl))
      exact lookup_declare_of_ne _ (Ne.symm different) _
    | _ => rfl

end Frame

/-- Whether a frame of a simplified program has, for the names of interest, the variables of a frame
of the program, with kinds that are related. -/
structure Frame.Matches (rel : Option Scalar → Option Scalar → Prop) (used : String → Prop)
    (before after : Frame) : Prop where
  program : after.program = before.program.simplify
  decl : after.decl = before.decl.simplify
  nonempty : before.locals.scopes ≠ []
  nonempty' : after.locals.scopes ≠ []
  /-- Variables are variables, of related kinds, and others are none. -/
  locals : ∀ name, used name → Option.Rel rel (before.locals.info? name) (after.locals.info? name)

/-- Whether the kinds that literals tell of fields before and after are related. -/
def Frame.FieldsRelate (rel : Option Scalar → Option Scalar → Prop) (used : String → Prop)
    (frame : Frame) : Prop :=
  ∀ name, used name → frame.locals.lookup name = none →
    ∀ found, frame.program.fieldOf? frame.decl name = some found →
      rel (ofLiteral? found.2.init) (ofLiteral? found.2.init.fold)

namespace Frame.Matches

variable {rel : Option Scalar → Option Scalar → Prop} {used used' : String → Prop}
  {before after : Frame}

section Matching

variable (matched : Matches rel used before after)

include matched

theorem mono (fewer : ∀ name, used' name → used name) : Matches rel used' before after :=
  { matched with locals := fun name use => matched.locals name (fewer name use) }

theorem enter : Matches rel used before.enter after.enter :=
  ⟨matched.program, matched.decl, cons_ne_nil _ _, cons_ne_nil _ _, matched.locals⟩

theorem enter_left : Matches rel used before.enter after :=
  ⟨matched.program, matched.decl, cons_ne_nil _ _, matched.nonempty', matched.locals⟩

theorem skip_left (names : List String) : Matches rel used (before.skip names) after :=
  ⟨matched.program, matched.decl, matched.nonempty, matched.nonempty', matched.locals⟩

theorem skip_right (names : List String) : Matches rel used before (after.skip names) :=
  ⟨matched.program, matched.decl, matched.nonempty, matched.nonempty', matched.locals⟩

/-- A name of a field means the field with its initial value folded. -/
theorem kindOfName_field (use : used name) (looked : before.locals.lookup name = none) :
    before.kindOfName name =
        (before.program.fieldOf? before.decl name).bind (fun found =>
          ofLiteral? found.2.init) ∧
      after.kindOfName name =
        (before.program.fieldOf? before.decl name).bind (fun found =>
          ofLiteral? found.2.init.fold) := by
  have looked' : after.locals.lookup name = none := by
    have locals := matched.locals name use
    rw [info?, looked] at locals
    cases found : after.locals.lookup name with
    | none => rfl
    | some found' =>
      rw [info?, found] at locals
      cases locals
  unfold kindOfName
  rw [looked, looked', matched.program, matched.decl, before.program.fieldOf?_simplify]
  cases before.program.fieldOf? before.decl name <;> exact ⟨rfl, rfl⟩

/-- Names that match have related kinds. -/
theorem kindOfName (compatible : Compatible rel) (fields : before.FieldsRelate rel used)
    (use : used name) : rel (before.kindOfName name) (after.kindOfName name) := by
  cases looked : before.locals.lookup name with
  | none =>
    obtain ⟨kind, kind'⟩ := matched.kindOfName_field use looked
    rw [kind, kind']
    cases found : before.program.fieldOf? before.decl name with
    | none => exact compatible.refl none
    | some field => exact fields name use looked field found
  | some known =>
    have locals := matched.locals name use
    unfold info? at locals
    unfold Frame.kindOfName
    rw [looked] at locals ⊢
    cases looked' : after.locals.lookup name with
    | none =>
      rw [looked'] at locals
      cases locals
    | some known' =>
      rw [looked'] at locals
      cases locals with
      | some related => exact related

/-- A declaration of related kinds. -/
theorem declare {kind kind' : Option Scalar} (related : rel kind kind')
    (others : ∀ other, used' other → other ≠ name → used other) :
    Matches rel used' { before with locals := before.locals.declare name kind }
      { after with locals := after.locals.declare name kind' } where
  program := matched.program
  decl := matched.decl
  nonempty := scopes_declare_ne_nil matched.nonempty name kind
  nonempty' := scopes_declare_ne_nil matched.nonempty' name kind'
  locals other use := by
    unfold info?
    by_cases same : other = name
    · subst same
      rw [lookup_declare_self matched.nonempty, lookup_declare_self matched.nonempty']
      exact .some related
    · rw [lookup_declare_of_ne _ same, lookup_declare_of_ne _ same]
      exact matched.locals other (others other use same)

/-- A statement that declares nothing, none of whose variables brought out is of interest. -/
theorem past_of_undeclared (undeclared : stmt.declared? = none)
    (kept : ∀ name, used' name → used name ∧
      ∀ declared ∈ declaredOnTop stmt.simplify, declared.1 ≠ name) :
    Matches rel used' (before.past stmt) (after.pastAll stmt.simplify) := by
  have behind : before.past stmt = before.skip stmt.variables := by
    cases stmt with
    | declare => cases undeclared
    | _ => rfl
  obtain ⟨program, decl⟩ := after.pastAll_program_decl stmt.simplify
  rw [behind]
  refine ⟨program.trans matched.program, decl.trans matched.decl, matched.nonempty,
    scopes_pastAll_ne_nil matched.nonempty' _, fun name use => ?_⟩
  obtain ⟨use, absent⟩ := kept name use
  rw [info?, info?, lookup_pastAll after absent]
  exact matched.locals name use

end Matching

/-- The frames behind a statement and what takes its place match for the rest, if no variable is
brought out to a use of its name and the kinds of a declaration are related. -/
theorem past {rest : List Stmt}
    (matched : Matches rel (fun name => blockUsesFree name (stmt.simplify ++ rest) = true)
      before after) (apart : ∀ declared ∈ stmt.hoisted, blockUsesFree declared.1 rest = false)
    (declared : ∀ name init position, stmt = .declare name init position →
      rel (before.kindOf init) (after.kindOf init.fold)) :
    Matches rel (fun name => blockUsesFree name rest = true) (before.past stmt)
      (after.pastAll stmt.simplify) := by
  cases declares : stmt.declared? with
  | some _ =>
    cases stmt with
    | declare name init position =>
      refine matched.declare (declared name init position rfl) fun other use different => ?_
      refine (blockUsesFree_append _ _).mpr (.inr ⟨?_, use⟩)
      rintro _ (_ | ⟨_, ⟨⟩⟩)
      exact Ne.symm different
    | _ => cases declares
  | none =>
    refine matched.past_of_undeclared declares fun name use => ?_
    have absent : ∀ declared ∈ declaredOnTop stmt.simplify, declared.1 ≠ name := by
      rintro declared mem rfl
      rw [apart declared (mem_hoisted.mpr ⟨declares, mem⟩)] at use
      cases use
    exact ⟨(blockUsesFree_append _ _).mpr (.inr ⟨absent, use⟩), absent⟩

end Frame.Matches

/-! ## Statements without captures -/

/-- Whether a name is left of the expression. -/
def Survivor.Reads (survivor : Survivor) (name : String) : Prop :=
  ∃ types position, .ident name types position ∈ survivor.expr.lasting

section Remains

variable {rel : Option Scalar → Option Scalar → Prop} {used : String → Prop} {before after : Frame}

/-- Frames that match for the names of an expression match for the names that are left of it. -/
theorem Frame.Matches.reads (matched : Matches rel used before after)
    (uses : ∀ name, Occurrence.anyPlain name expr.occurrences = true → used name) :
    Matches rel (Survivor.Reads ⟨expr, before, after⟩) before after := by
  refine matched.mono ?_
  rintro name ⟨types, position, left⟩
  exact uses name (anyPlain_of_lasting left)

/-- The kinds of an expression before and after are related where frames match. -/
theorem Frame.Matches.kindOf
    (matched : Matches rel (Survivor.Reads ⟨expr, before, after⟩) before after)
    (compatible : Compatible rel)
    (fields : before.FieldsRelate rel (Survivor.Reads ⟨expr, before, after⟩)) :
    rel (before.kindOf expr) (after.kindOf expr.fold) :=
  compatible.kindOf fun _ types position left =>
    matched.kindOfName compatible fields ⟨types, position, left⟩

namespace Stmt

/-- Whether all that is left of a block has frames that match, if those around the block match for
the names that the simplified block uses. -/
def RemainsMatch (rel : Option Scalar → Option Scalar → Prop) (block : List Stmt) : Prop :=
  ∀ before after,
    Frame.Matches rel (fun name => blockUsesFree name (simplifyBlock block) = true) before after →
    (∀ survivor ∈ blockRemains before after block,
      survivor.before.FieldsRelate rel survivor.Reads) →
    ∀ survivor ∈ blockRemains before after block,
      Frame.Matches rel survivor.Reads survivor.before survivor.after

/-- What is left of a statement has frames that match if the blocks that are left of it have. -/
theorem matches_remains (inner : ∀ block ∈ stmt.liveBlocks, RemainsMatch rel block)
    (matched : Matches rel (fun name => blockUsesFree name stmt.simplify = true) before after)
    (fields : ∀ survivor ∈ stmt.remains before after,
      survivor.before.FieldsRelate rel survivor.Reads) :
    ∀ survivor ∈ stmt.remains before after,
      Matches rel survivor.Reads survivor.before survivor.after := by
  cases stmt with
  | declare name value | ret value | eval value =>
    refine forall_mem_singleton.mpr (matched.reads fun name use => ?_)
    simpa [simplify, usesFree, occurrences, exprs] using use
  | assign target value =>
    refine forall_mem_singleton.mpr (matched.reads fun name use => ?_)
    rw [Occurrence.anyPlain] at use
    simp [simplify, usesFree, occurrences, exprs, Occurrence.anyPlain, use]
  | leave => exact forall_mem_nil _
  | branch test body alternative =>
    cases alternative with
    | none =>
      rw [simplify] at matched
      rw [remains] at fields ⊢
      rw [liveBlocks] at inner
      generalize test.fold.asBool? = decided at inner matched fields ⊢
      rcases decided with _ | _ | _
      · obtain ⟨fieldsTest, fieldsBody⟩ := forall_mem_cons.mp fields
        refine forall_mem_cons.mpr ⟨matched.reads fun name use => ?_, ?_⟩
        · simp [usesFree, use]
        · refine inner body mem_cons_self _ _ (matched.enter.mono fun name use => ?_)
            fieldsBody
          simp [usesFree, use]
      · exact forall_mem_nil _
      · exact inner body mem_cons_self _ _ matched.enter_left fields
    | some alternative =>
      rw [simplify] at matched
      rw [remains] at fields ⊢
      rw [liveBlocks] at inner
      generalize test.fold.asBool? = decided at inner matched fields ⊢
      rcases decided with _ | _ | _
      · obtain ⟨fieldsTest, fieldsBlocks⟩ := forall_mem_cons.mp fields
        obtain ⟨fieldsBody, fieldsAlternative⟩ := forall_mem_append.mp fieldsBlocks
        refine forall_mem_cons.mpr ⟨matched.reads fun name use => ?_,
          forall_mem_append.mpr ⟨?_, ?_⟩⟩
        · simp [usesFree, use]
        · refine inner body mem_cons_self _ _ (matched.enter.mono fun name use => ?_)
            fieldsBody
          simp [usesFree, use]
        · refine inner alternative (by simp) _ _
            (((matched.skip_left _).skip_right _).enter.mono fun name use => ?_)
            fieldsAlternative
          simp [usesFree, use]
      · exact inner alternative (by simp) _ _ (matched.skip_left _).enter_left fields
      · exact inner body mem_cons_self _ _ matched.enter_left fields
  | loop test body =>
    rw [simplify] at matched
    rw [remains] at fields ⊢
    rw [liveBlocks] at inner
    split at fields
    · next decided =>
        rw [if_pos decided]
        exact forall_mem_nil _
    · next undecided =>
        rw [if_neg undecided] at inner matched ⊢
        obtain ⟨fieldsTest, fieldsBody⟩ := forall_mem_cons.mp fields
        refine forall_mem_cons.mpr ⟨matched.reads fun name use => ?_, ?_⟩
        · simp [usesFree, use]
        · refine inner body mem_cons_self _ _ (matched.enter.mono fun name use => ?_)
            fieldsBody
          simp [usesFree, use]

/-- What is left of statements that capture no name has frames that match. -/
theorem remainsMatch_of_free (compatible : Compatible rel) (block : List Stmt)
    (free : blockCaptures block = false) : RemainsMatch rel block := by
  induction block using block_induction with
  | nil => exact fun _ _ _ _ => forall_mem_nil _
  | cons stmt rest inner later =>
    intro before after matched fields
    rw [blockCaptures, Bool.or_eq_false_iff, captures_eq] at free
    obtain ⟨freeStmt, freeRest⟩ := free
    rw [simplifyBlock] at matched
    rw [blockRemains] at fields ⊢
    obtain ⟨fieldsStmt, fieldsRest⟩ := forall_mem_append.mp fields
    have here (matched : Matches rel
        (fun name => blockUsesFree name stmt.simplify = true) before after) :
        ∀ survivor ∈ stmt.remains before after,
          Matches rel survivor.Reads survivor.before survivor.after := by
      refine matches_remains (fun block mem => ?_) matched fieldsStmt
      exact inner block (stmt.liveBlocks_subset mem)
        (Bool.eq_false_iff.mpr (any_eq_false.mp freeStmt block mem))
    split at matched
    · next ends =>
        rw [if_pos ends, append_nil]
        exact here matched
    · next goesOn =>
        rw [if_neg goesOn] at fieldsRest ⊢
        rw [Bool.eq_false_iff.mpr goesOn, Bool.not_false, Bool.true_and, Bool.or_eq_false_iff]
          at freeRest
        obtain ⟨apart, freeRest⟩ := freeRest
        have matchedStmt := here (matched.mono fun name use =>
          (blockUsesFree_append _ _).mpr (.inl use))
        refine forall_mem_append.mpr ⟨matchedStmt, ?_⟩
        refine later freeRest _ _ (matched.past ?_ ?_) fieldsRest
        · exact fun declared mem =>
            Bool.eq_false_iff.mpr (any_eq_false.mp apart declared mem)
        · rintro name init position rfl
          have only := mem_singleton_self (⟨init, before, after⟩ : Survivor)
          exact (matchedStmt _ only).kindOf compatible (fieldsStmt _ only)

end Stmt

end Remains

section Matching

variable {rel : Option Scalar → Option Scalar → Prop} {program : Program} {decl : ClassDecl}

variable (compatible : Compatible rel)

include compatible

/-- Where a method starts, frames match. -/
theorem Frame.matches_ofParams (program : Program) (decl : ClassDecl) (params : List Param)
    (used : String → Prop) :
    Matches rel used (.ofParams program decl params)
      (.ofParams program.simplify decl.simplify params) where
  program := rfl
  decl := rfl
  nonempty := (Reached.start _).allocated.nonempty
  nonempty' := (Reached.start _).allocated.nonempty
  locals name _ := by
    change Option.Rel rel ((ofParams program decl params).locals.info? name)
      ((ofParams program decl params).locals.info? name)
    cases (ofParams program decl params).locals.info? name with
    | none => exact .none
    | some kind => exact .some (compatible.refl kind)

/-- What is left of a class that captures no name has frames that match. -/
theorem ClassDecl.matches_remains (free : decl.captures = false)
    (fields : ∀ survivor ∈ decl.remains program, survivor.before.FieldsRelate rel survivor.Reads) :
    ∀ survivor ∈ decl.remains program,
      Matches rel survivor.Reads survivor.before survivor.after := by
  obtain ⟨freeInit, freeMembers⟩ := Bool.or_eq_false_iff.mp free
  unfold ClassDecl.remains at fields ⊢
  have start (params : List Param) (used : String → Prop) :=
    matches_ofParams compatible program decl params used
  obtain ⟨fieldsInit, fieldsMethods⟩ := forall_mem_append.mp fields
  refine forall_mem_append.mpr ⟨forall_mem_append.mpr ⟨?_, ?_⟩, ?_⟩
  · rw [forall_mem_map]
    exact fun field _ => start [] _
  · exact remainsMatch_of_free compatible decl.init freeInit _ _ (start [] _)
      (forall_mem_append.mp fieldsInit).2
  · intro survivor mem
    obtain ⟨method, declared, inMethod⟩ := mem_flatMap.mp mem
    have freeMethod : blockCaptures method.body = false :=
      Bool.eq_false_iff.mpr (any_eq_false.mp freeMembers _ (ClassDecl.mem_methods.mp declared))
    refine remainsMatch_of_free compatible method.body freeMethod _ _ (start method.params _)
      (fun other inside => ?_) survivor inMethod
    exact fieldsMethods other (mem_flatMap.mpr ⟨method, declared, inside⟩)

/-- What is left of a program that captures no name has frames that match. -/
theorem Program.matches_survivors (free : program.captures = false)
    (fields : ∀ survivor ∈ program.remains, survivor.before.FieldsRelate rel survivor.Reads) :
    ∀ survivor ∈ program.survivors,
      Matches rel survivor.Reads survivor.before survivor.after := by
  intro survivor mem
  obtain ⟨whole, inProgram, inWhole⟩ := mem_flatMap.mp mem
  obtain ⟨part, lasting, rfl⟩ := mem_map.mp inWhole
  obtain ⟨decl, declared, inClass⟩ := mem_flatMap.mp inProgram
  have freeClass := Bool.eq_false_iff.mpr (any_eq_false.mp free decl declared)
  have matched := ClassDecl.matches_remains compatible freeClass
    (fun other inside => fields other (mem_flatMap.mpr ⟨decl, declared, inside⟩)) whole inClass
  refine matched.mono ?_
  rintro name ⟨types, position, left⟩
  exact ⟨types, position, lasting_subset lasting left⟩

end Matching

/-! ## Conversions -/

/-- A call of something without a name converts nothing. -/
theorem Frame.conversions_call (frame : Frame) {callee : Expr} (notNamed : callee.isNamed = false)
    (arguments : List Expr) (position : Position) :
    frame.conversions (.call callee arguments position) = [] := by
  cases callee with
  | ident | member => cases notNamed
  | _ => rfl

/-- An operation that is not computed has the conversions that it had if its operands have the kinds
that they had. -/
theorem Frame.conversions_fold {before after : Frame} (notComputed : expr.isComputed = false)
    (operands : ∀ operand ∈ expr.operands, after.kindOf operand.fold = before.kindOf operand) :
    after.conversions expr.fold = before.conversions expr := by
  cases expr with
  | binary op left right =>
    obtain ⟨first, later⟩ := forall_mem_cons.mp operands
    have second := forall_mem_singleton.mp later
    rw [fold_binary notComputed, conversions, conversions, first, second]
  | call callee arguments position =>
    cases named : callee.isNamed with
    | false =>
      have folded : callee.fold.isNamed = false := by rw [isNamed_fold, named]
      rw [fold, after.conversions_call folded, before.conversions_call named]
    | true =>
      cases callee with
      | ident name types place =>
        rcases arguments with _ | ⟨argument, _ | _⟩
        · rfl
        · have only := forall_mem_singleton.mp operands
          change after.conversions (.call (.ident name types place) [argument.fold] position) = _
          rw [conversions, conversions, only]
        · rfl
      | member receiver name place =>
        obtain ⟨first, later⟩ := forall_mem_cons.mp operands
        rcases arguments with _ | ⟨argument, _ | _⟩
        · rfl
        · have second := forall_mem_singleton.mp later
          rw [fold, fold, foldList, foldList, conversions, conversions, first, second]
        · rfl
      | _ => cases named
  | _ => rfl

/-! ## Kinds that are kept -/

/-- Whether the initial value of a field is no literal but becomes one when it is folded. -/
def Field.isComputed (field : Field) : Bool :=
  (ofLiteral? field.init).isNone && (ofLiteral? field.init.fold).isSome

/-- Whether an expression is a name that means a field with a computed initial value. -/
def Framed.readsComputed (framed : Framed) : Bool :=
  match framed.expr with
  | .ident name _ _ =>
    (framed.frame.locals.lookup name).isNone &&
      (framed.frame.program.fieldOf? framed.frame.decl name).any fun found => found.2.isComputed
  | _ => false

/-- A literal is folded to itself, so the kind that it tells stays known. -/
theorem Scalar.staysKnown_ofLiteral?_fold (expr : Expr) :
    StaysKnown (ofLiteral? expr) (ofLiteral? expr.fold) := by
  intro kind known
  cases expr with
  | int | real | bool => exact known
  | _ => cases known

/-- The names that mean fields with computed initial values. -/
theorem Framed.readsComputed_iff {frame : Frame} :
    Framed.readsComputed ⟨frame, expr⟩ = true ↔
      ∃ name types position, expr = .ident name types position ∧
        frame.locals.lookup name = none ∧
        ∃ found, frame.program.fieldOf? frame.decl name = some found ∧
          found.2.isComputed = true := by
  cases expr <;> simp [readsComputed, Option.any_eq_true]

/-- Folding does not change the kind that the initial value of a field tells, unless it is
computed. -/
theorem Field.ofLiteral?_fold {field : Field} (notComputed : field.isComputed = false) :
    ofLiteral? field.init = ofLiteral? field.init.fold := by
  cases known : ofLiteral? field.init with
  | some kind => exact (staysKnown_ofLiteral?_fold field.init kind known).symm
  | none =>
    rw [Field.isComputed, known, Option.isNone_none, Bool.true_and] at notComputed
    exact (Option.isSome_eq_false_iff.mp notComputed |> Option.isNone_iff_eq_none.mp).symm

namespace Survivor

/-- Whether the kind of the expression is the same before and after. -/
def KeepsKind (survivor : Survivor) : Prop := survivor.result.kind = survivor.original.kind

/-- Whether the operation has the same conversions before and after, if it is not computed. -/
def KeepsConversions (survivor : Survivor) : Prop :=
  survivor.expr.isComputed = false →
    survivor.after.conversions survivor.expr.fold = survivor.before.conversions survivor.expr

end Survivor

namespace Program

variable {program : Program}

/-- All kinds are kept if those of names are. -/
theorem keepsKind_iff_names (program : Program) :
    (∀ survivor ∈ program.survivors, survivor.KeepsKind) ↔
      ∀ survivor ∈ program.survivors, survivor.expr.isIdent = true → survivor.KeepsKind := by
  refine ⟨fun kept survivor mem _ => kept survivor mem, fun names survivor mem => ?_⟩
  refine (compatible_eq.kindOf fun name types position left => ?_).symm
  exact (names _ (mem_survivors_of_lasting mem left) rfl).symm

/-- Where all kinds are kept, so are all conversions. -/
theorem keepsConversions_of_keepsKind (kept : ∀ survivor ∈ program.survivors, survivor.KeepsKind) :
    ∀ survivor ∈ program.survivors, survivor.KeepsConversions := by
  intro survivor mem notComputed
  refine conversions_fold notComputed fun operand inside => ?_
  have left : operand ∈ survivor.expr.lasting :=
    lasting_subset_of_operand notComputed inside (by rw [lasting_eq]; exact mem_cons_self)
  exact kept _ (mem_survivors_of_lasting mem left)

variable (free : program.captures = false)

include free

/-- Frames of a program that captures no name match, with kinds that stay known. -/
theorem matches_staysKnown {survivor : Survivor} (mem : survivor ∈ program.survivors) :
    Matches StaysKnown survivor.Reads survivor.before survivor.after :=
  matches_survivors compatible_staysKnown free
    (fun _ _ _ _ _ found _ => staysKnown_ofLiteral?_fold found.2.init) survivor mem

/-- A program that captures no name keeps the kinds that are known. -/
theorem staysKnown_kind {survivor : Survivor} (mem : survivor ∈ program.survivors) :
    StaysKnown survivor.original.kind survivor.result.kind :=
  (matches_staysKnown free mem).kindOf compatible_staysKnown
    fun _ _ _ found _ => staysKnown_ofLiteral?_fold found.2.init

/-- In a program that captures no name, a kind changes exactly where a name means a field with a
computed initial value. -/
theorem keepsKind_iff_readsComputed :
    (∀ survivor ∈ program.survivors, survivor.KeepsKind) ↔
      ∀ survivor ∈ program.survivors, survivor.original.readsComputed = false := by
  constructor
  · intro kept survivor mem
    refine Bool.eq_false_iff.mpr fun reads => ?_
    have same := kept survivor mem
    have matched := matches_staysKnown free mem
    obtain ⟨expr, before, after⟩ := survivor
    have reads : Framed.readsComputed ⟨before, expr⟩ = true := reads
    obtain ⟨name, types, position, rfl, looked, field, found, computed⟩ :=
      Framed.readsComputed_iff.mp reads
    obtain ⟨kind, kind'⟩ := matched.kindOfName_field ⟨types, position, mem_singleton_self _⟩ looked
    obtain ⟨unknown, known⟩ := Bool.and_eq_true_iff.mp computed
    rw [found] at kind kind'
    have equal : ofLiteral? field.2.init.fold = ofLiteral? field.2.init :=
      kind'.symm.trans (same.trans kind)
    rw [equal, Option.isNone_iff_eq_none.mp unknown] at known
    cases known
  · intro plain
    have fields (whole : Survivor) (mem : ∀ part ∈ whole.expr.lasting,
        ⟨part, whole.before, whole.after⟩ ∈ program.survivors) :
        whole.before.FieldsRelate Eq whole.Reads := by
      rintro name ⟨types, position, left⟩ looked field found
      refine Field.ofLiteral?_fold (Bool.eq_false_iff.mpr fun computed => ?_)
      have reads : Framed.readsComputed ⟨whole.before, .ident name types position⟩ = true :=
        Framed.readsComputed_iff.mpr ⟨name, types, position, rfl, looked, field, found, computed⟩
      exact Bool.eq_false_iff.mp (plain _ (mem _ left)) reads
    intro survivor mem
    have matched := matches_survivors compatible_eq free
      (fun whole inside => fields whole fun part => mem_survivors_of_remains inside) survivor mem
    exact (matched.kindOf compatible_eq
      (fields survivor fun part => mem_survivors_of_lasting mem)).symm

end Program

/-- How what is left of a program stands for the program and for the simplified one. -/
structure Program.Corresponds (program : Program) (artifact artifact' : Artifact) : Prop where
  /-- Each expression that is left is computed in the program, in the same order. -/
  originals : (program.survivors.map Survivor.original).Sublist program.values
  /-- All that is computed in the simplified program is left of the program. -/
  results : program.survivors.map Survivor.result = program.simplify.values
  /-- Both have their code in the code of a method. -/
  lowered : ∀ survivor ∈ program.survivors,
    survivor.original.LoweredFor artifact ∧ survivor.result.LoweredFor artifact'

/-- What simplification does to kinds. What is left of a program keeps its kinds if the names that are
left keep theirs, and then it keeps its conversions as well. In a program that captures no name, kinds
that are known stay known, and all kinds are kept exactly if no name that is left means a field whose
initial value becomes a literal. -/
theorem Program.kinds_simplify {program : Program} {artifact artifact' : Artifact}
    (lowered : program.lower = .ok artifact) (lowered' : program.simplify.lower = .ok artifact') :
    program.Corresponds artifact artifact' ∧
      ((∀ survivor ∈ program.survivors, survivor.KeepsKind) ↔
        ∀ survivor ∈ program.survivors, survivor.expr.isIdent = true → survivor.KeepsKind) ∧
      ((∀ survivor ∈ program.survivors, survivor.KeepsKind) →
        ∀ survivor ∈ program.survivors, survivor.KeepsConversions) ∧
      (program.captures = false →
        (∀ survivor ∈ program.survivors,
          ∀ kind, survivor.original.kind = some kind → survivor.result.kind = some kind) ∧
        ((∀ survivor ∈ program.survivors, survivor.KeepsKind) ↔
          ∀ survivor ∈ program.survivors, survivor.original.readsComputed = false)) := by
  refine ⟨⟨program.map_original_survivors, program.map_result_survivors, fun survivor mem => ?_⟩,
    program.keepsKind_iff_names, keepsConversions_of_keepsKind, fun free => ⟨?_, ?_⟩⟩
  · refine ⟨loweredFor_values lowered ?_, loweredFor_values lowered' ?_⟩
    · exact program.map_original_survivors.subset (mem_map_of_mem mem)
    · rw [← program.map_result_survivors]
      exact mem_map_of_mem mem
  · exact fun survivor mem => staysKnown_kind free mem
  · exact keepsKind_iff_readsComputed free

/-- A class with a field whose initial value is computed, and a method that turns it into a double. -/
def computedField : Program :=
  let init : Expr := .binary .add (.int "1" ⟨1, 20⟩) (.int "2" ⟨1, 24⟩) ⟨1, 20⟩
  let body : List Stmt :=
    [.ret (.call (.ident "Real" [] ⟨1, 52⟩) [.ident "x" [] ⟨1, 57⟩] ⟨1, 52⟩) ⟨1, 45⟩]
  ⟨[⟨"A", none, [], [.field ⟨"x", init, ⟨1, 12⟩⟩,
    .method ⟨"f", [], some ⟨"Real", [], ⟨1, 37⟩⟩, body, ⟨1, 26⟩⟩], ⟨1, 1⟩⟩]⟩

/-- The field captures nothing, and still its kind is not kept. -/
theorem Program.kinds_simplify_computedField :
    ∃ artifact artifact', computedField.lower = .ok artifact ∧
      computedField.simplify.lower = .ok artifact' ∧ computedField.captures = false ∧
      ¬∀ survivor ∈ computedField.survivors, survivor.KeepsKind := by
  have reads : computedField.survivors.any (·.original.readsComputed) = true := by decide
  refine ⟨_, _, rfl, rfl, rfl, fun kept => ?_⟩
  obtain ⟨-, -, -, exactly⟩ := @Program.kinds_simplify computedField _ _ rfl rfl
  obtain ⟨survivor, mem, reads⟩ := any_eq_true.mp reads
  rw [(exactly rfl).2.mp kept survivor mem] at reads
  cases reads

/-- Nothing is wrong with this program. Its method loads the field and returns it, and the simplified
method turns it into a double in between. -/
theorem Program.widens_simplify_computedField :
    computedField.analyze.isClean = true ∧
      (∃ init rest entry, computedField.lower = .ok ⟨⟨"A", none, ["x"], [init,
        ⟨"f", [], [], [.loadThis, .loadField "A" "x", .ret]⟩]⟩ :: rest, entry⟩) ∧
      ∃ init rest entry, computedField.simplify.lower = .ok ⟨⟨"A", none, ["x"], [init,
        ⟨"f", [], [], [.loadThis, .loadField "A" "x", .widen, .ret]⟩]⟩ :: rest, entry⟩ :=
  ⟨by decide +kernel, ⟨_, _, _, rfl⟩, _, _, _, rfl⟩

end ClassLang
