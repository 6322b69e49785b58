import Mathlib.Data.List.Forall2
import ClassLang.Proofs.Analysis
import ClassLang.Proofs.Capture
import ClassLang.Proofs.Hierarchy
import ClassLang.Proofs.Lowering.Faults

/-! # What a clean analysis promises

A program whose analysis is clean is lowered as it is written or simplified. In both forms no
assignment and no exit stands in a wrong place, and every name that the analysis takes for a
parameter, a variable or a field has a storage wherever it is lowered. Names that stay unknown are
those of classes, of methods, of built-in types and of the routine that writes a value out. -/

namespace ClassLang

open List Stmt ClassLang.Expr Analysis

variable {name : String}

/-! ## Forms of a program -/

/-- The forms in which a program is lowered. -/
inductive Form where
  | written
  | simplified
  deriving DecidableEq, Repr

namespace Form

/-- The form of an expression. -/
def expr : Form → Expr → Expr
  | written => id
  | simplified => fold

/-- The form of statements. -/
def block : Form → List Stmt → List Stmt
  | written => id
  | simplified => simplifyBlock

/-- The form of a member of a class. -/
def member : Form → Member → Member
  | written => id
  | simplified => Member.simplify

/-- The form of a class. -/
def decl : Form → ClassDecl → ClassDecl
  | written => id
  | simplified => ClassDecl.simplify

/-- The form of a program. -/
def program : Form → Program → Program
  | written => id
  | simplified => Program.simplify

@[simp] theorem occurrences_expr (form : Form) (expr : Expr) :
    (form.expr expr).occurrences = expr.occurrences := by
  cases form with
  | written => rfl
  | simplified => exact expr.occurrences_fold

theorem classes_program (form : Form) (program : Program) :
    (form.program program).classes = program.classes.map form.decl := by
  cases form with
  | written => exact (map_id _).symm
  | simplified => rfl

theorem owner?_program (form : Form) (program : Program) (decl : ClassDecl) :
    (form.program program).owner? (form.decl decl) = program.owner? decl := by
  cases form with
  | written => rfl
  | simplified => exact program.owner?_simplify decl

end Form

/-! ## Statements that are left -/

namespace Stmt

/-- How statements are left of others: expressions are changed, the statements of a decided branch
take its place, and statements that declare nothing are dropped, as may be all behind a return. -/
inductive Leaves (onExpr : Expr → Expr) : List Stmt → List Stmt → Prop
  | stop {block} : Leaves onExpr block []
  | drop {stmt rest rest'} (undeclared : stmt.declared? = none)
      (later : Leaves onExpr rest rest') : Leaves onExpr (stmt :: rest) rest'
  | taken {test body body' alternative position rest rest'} (inner : Leaves onExpr body body')
      (later : Leaves onExpr rest rest') :
      Leaves onExpr (.branch test body alternative position :: rest) (body' ++ rest')
  | otherwise {test body alternative alternative' position rest rest'}
      (inner : Leaves onExpr alternative alternative')
      (later : Leaves onExpr rest rest') :
      Leaves onExpr (.branch test body (some alternative) position :: rest) (alternative' ++ rest')
  | declare {name init position rest rest'} (later : Leaves onExpr rest rest') :
      Leaves onExpr (.declare name init position :: rest)
        (.declare name (onExpr init) position :: rest')
  | assign {target value position rest rest'} (later : Leaves onExpr rest rest') :
      Leaves onExpr (.assign target value position :: rest)
        (.assign target (onExpr value) position :: rest')
  | branch {test body body' position rest rest'}
      (inner : Leaves onExpr body body') (later : Leaves onExpr rest rest') :
      Leaves onExpr (.branch test body none position :: rest)
        (.branch (onExpr test) body' none position :: rest')
  | alternative {test body body' alternative alternative' position rest rest'}
      (inner : Leaves onExpr body body')
      (other : Leaves onExpr alternative alternative') (later : Leaves onExpr rest rest') :
      Leaves onExpr (.branch test body (some alternative) position :: rest)
        (.branch (onExpr test) body' (some alternative') position :: rest')
  | loop {test body body' position rest rest'}
      (inner : Leaves onExpr body body') (later : Leaves onExpr rest rest') :
      Leaves onExpr (.loop test body position :: rest) (.loop (onExpr test) body' position :: rest')
  | ret {value position rest rest'} (later : Leaves onExpr rest rest') :
      Leaves onExpr (.ret value position :: rest) (.ret (onExpr value) position :: rest')
  | leave {position rest rest'} (later : Leaves onExpr rest rest') :
      Leaves onExpr (.leave position :: rest) (.leave position :: rest')
  | eval {value position rest rest'} (later : Leaves onExpr rest rest') :
      Leaves onExpr (.eval value position :: rest) (.eval (onExpr value) position :: rest')

/-- Statements as they are written. -/
theorem leaves_self (block : List Stmt) : Leaves id block block := by
  induction block using block_induction with
  | nil => exact .stop
  | cons stmt rest inner later =>
    cases stmt with
    | declare name init => exact .declare later
    | assign target value => exact .assign later
    | branch test body alternative =>
      have taken := inner body mem_cons_self
      cases alternative with
      | none => exact .branch taken later
      | some alternative =>
        have mem : alternative ∈ [body, alternative] := mem_cons_of_mem _ mem_cons_self
        exact .alternative taken (inner alternative mem) later
    | loop test body => exact .loop (inner body mem_cons_self) later
    | ret value => exact .ret later
    | leave => exact .leave later
    | eval value => exact .eval later

/-- The statements that take the place of a statement, in front of what is left of the rest. -/
theorem leaves_simplify {stmt : Stmt} {rest rest' : List Stmt}
    (inner : ∀ block ∈ stmt.blocks, Leaves fold block (simplifyBlock block))
    (later : Leaves fold rest rest') : Leaves fold (stmt :: rest) (stmt.simplify ++ rest') := by
  cases stmt with
  | declare name init => exact .declare later
  | assign target value => exact .assign later
  | branch test body alternative =>
    have taken := inner body mem_cons_self
    cases alternative with
    | none =>
      rw [simplify]
      split
      · exact .taken taken later
      · exact .drop rfl later
      · exact .branch taken later
    | some alternative =>
      have mem : alternative ∈ [body, alternative] := mem_cons_of_mem _ mem_cons_self
      have other := inner alternative mem
      rw [simplify]
      split
      · exact .taken taken later
      · exact .otherwise other later
      · exact .alternative taken other later
  | loop test body =>
    rw [simplify]
    split
    · exact .drop rfl later
    · exact .loop (inner body mem_cons_self) later
  | ret value => exact .ret later
  | leave => exact .leave later
  | eval value => exact .eval later

/-- Simplified statements. -/
theorem leaves_simplifyBlock (block : List Stmt) : Leaves fold block (simplifyBlock block) := by
  induction block using block_induction with
  | nil => exact .stop
  | cons stmt rest inner later =>
    rw [simplifyBlock]
    split
    -- behind a statement that returns, nothing is left
    · have alone : Leaves fold (stmt :: rest) (stmt.simplify ++ []) :=
        leaves_simplify inner .stop
      rwa [append_nil] at alone
    · exact leaves_simplify inner later

end Stmt

theorem Form.leaves_block (form : Form) (block : List Stmt) :
    Stmt.Leaves form.expr block (form.block block) := by
  cases form with
  | written => exact leaves_self block
  | simplified => exact leaves_simplifyBlock block

/-! ## Places of exits and assignments -/

/-- Statements in a row are well placed if all are. -/
theorem Stmt.blockWellPlaced_append (insideLoop : Bool) (one two : List Stmt) :
    blockWellPlaced insideLoop (one ++ two) =
      (blockWellPlaced insideLoop one && blockWellPlaced insideLoop two) := by
  induction one with
  | nil => rfl
  | cons stmt rest ih =>
    rw [cons_append, blockWellPlaced, blockWellPlaced, ih, Bool.and_assoc]

/-- What is left of well placed statements is well placed. -/
theorem Stmt.Leaves.wellPlaced {onExpr : Expr → Expr} {block block' : List Stmt}
    (leaves : Leaves onExpr block block') {insideLoop : Bool}
    (placed : blockWellPlaced insideLoop block = true) :
    blockWellPlaced insideLoop block' = true := by
  induction leaves generalizing insideLoop with
  | stop => rfl
  | drop _ _ later =>
    rw [blockWellPlaced, Bool.and_eq_true] at placed
    exact later placed.2
  | @taken test body body' alternative _ rest rest' _ _ inner later =>
    rw [blockWellPlaced, Bool.and_eq_true] at placed
    have body : blockWellPlaced insideLoop body = true := by
      cases alternative with
      | none => exact placed.1
      | some alternative => exact (Bool.and_eq_true_iff.mp placed.1).1
    rw [blockWellPlaced_append, inner body, later placed.2]
    rfl
  | otherwise _ _ inner later =>
    simp only [blockWellPlaced, Stmt.wellPlaced, Bool.and_eq_true] at placed
    rw [blockWellPlaced_append, inner placed.1.2, later placed.2]
    rfl
  | declare _ later | ret _ later | eval _ later | leave _ later | assign _ later =>
    rw [blockWellPlaced, Bool.and_eq_true] at placed ⊢
    exact ⟨placed.1, later placed.2⟩
  | branch _ _ inner later | loop _ _ inner later =>
    rw [blockWellPlaced, Bool.and_eq_true] at placed ⊢
    exact ⟨inner placed.1, later placed.2⟩
  | alternative _ _ _ inner other later =>
    simp only [blockWellPlaced, Stmt.wellPlaced, Bool.and_eq_true] at placed ⊢
    exact ⟨⟨inner placed.1.1, other placed.1.2⟩, later placed.2⟩

mutual

/-- A statement with a clean analysis is well placed. -/
theorem Stmt.wellPlaced_of_clean {place : Place} {stmt : Stmt} {analysis : Analysis}
    (clean : (stmt.analyze place analysis).diagnostics = []) :
    stmt.wellPlaced place.insideLoop = true := by
  cases stmt with
  | declare | ret | eval => rfl
  | assign target value =>
    obtain ⟨⟨name, position', rfl⟩, -⟩ := assign_of_clean clean
    rfl
  | branch test body alternative =>
    cases alternative with
    | none => exact blockWellPlaced_of_clean (clean_of_within _ clean)
    | some alternative =>
      have taken := clean_before_within clean
      rw [wellPlaced, Bool.and_eq_true]
      exact ⟨blockWellPlaced_of_clean (clean_of_within _ taken),
        blockWellPlaced_of_clean (clean_of_within _ clean)⟩
  | loop test body =>
    have inside : blockWellPlaced { place with insideLoop := true }.insideLoop body = true :=
      blockWellPlaced_of_clean (clean_of_within _ clean)
    exact inside
  | leave =>
    rw [analyze] at clean
    split at clean
    · next inside => exact inside
    · simp [report] at clean

theorem Stmt.blockWellPlaced_of_clean {place : Place} {block : List Stmt} {analysis : Analysis}
    (clean : (analyzeBlock place block analysis).diagnostics = []) :
    blockWellPlaced place.insideLoop block = true := by
  cases block with
  | nil => rfl
  | cons stmt rest =>
    rw [analyzeBlock] at clean
    rw [blockWellPlaced, Bool.and_eq_true]
    exact ⟨wellPlaced_of_clean ((grows_analyzeBlock place rest _).clean clean),
      blockWellPlaced_of_clean clean⟩

end

/-! ## Names with a storage -/

namespace Program

/-- Whether a name is taken for a parameter, a variable or a field in a class when some scopes are
open. -/
def Stores (program : Program) (decl : ClassDecl) (scopes : Scopes) (name : String) : Prop :=
  (∃ declaration, scopes.lookup name = some declaration ∧
    (declaration.role = .parameterRole ∨ declaration.role = .variableRole)) ∨
  (decl.field? name).isSome = true ∨
  ∃ ancestor ∈ program.ancestors decl, (ancestor.field? name).isSome = true

/-- Whether a name means something in a class that has no storage: a class, a method, a built-in type
or the routine that writes a value out. -/
def NamesOther (program : Program) (decl : ClassDecl) (name : String) : Prop :=
  (program.class? name).isSome = true ∨ (decl.method? name).isSome = true ∨
  (∃ ancestor ∈ program.ancestors decl, (ancestor.method? name).isSome = true) ∨
  (BuiltinType.ofName? name).isSome = true ∨ name = writeRoutine

/-- An expression that lowering comes to is one that the analysis visits, and its frame has a storage
for every name that the analysis takes for a parameter, a variable or a field there. -/
structure Serves (program : Program) (form : Form) (decl : ClassDecl) (use : Expr × Frame)
    (visit : Expr × Scopes) : Prop where
  /-- The expression is the visited one, in the form that is lowered. -/
  expr : use.1 = form.expr visit.1
  /-- Parameters, variables and fields have a storage. -/
  stored : ∀ name, program.Stores decl visit.2 name → (use.2.storage? name).isSome = true
  /-- Names that the analysis knows have a storage or mean something else. -/
  known : ∀ place : Place, place.program = program → place.decl = decl → ∀ name,
    place.knows visit.2 name = true →
      (use.2.storage? name).isSome = true ∨ program.NamesOther decl name

end Program

/-- A name has a storage if it is a variable or a field. -/
theorem Frame.isSome_storage? (frame : Frame) (name : String) :
    (frame.storage? name).isSome = true ↔
      (frame.locals.lookup name).isSome = true ∨ (frame.owner? name).isSome = true := by
  unfold storage?
  cases frame.locals.lookup name with
  | some found => simp
  | none => simp

/-- An emitter for a class has variables of all the names in some scopes. -/
structure Emitter.Covers (program : Program) (form : Form) (decl : ClassDecl) (emitter : Emitter)
    (inner : List (List (String × Declaration))) : Prop where
  program : emitter.frame.program = form.program program
  decl : emitter.frame.decl = form.decl decl
  nonempty : emitter.frame.locals.scopes ≠ []
  /-- All names in the scopes are variables. -/
  names : ∀ scope ∈ inner, ∀ entry ∈ scope, (emitter.frame.locals.lookup entry.1).isSome = true

namespace Emitter.Covers

variable {program : Program} {form : Form} {decl : ClassDecl} {emitter final : Emitter}
  {inner outer : List (List (String × Declaration))}

section Covering

variable (covers : Covers program form decl emitter inner)

include covers

/-- Fields of a class and its ancestors have a storage. -/
theorem isSome_owner? (has : (decl.field? name).isSome = true ∨
      ∃ ancestor ∈ program.ancestors decl, (ancestor.field? name).isSome = true) :
    (emitter.frame.owner? name).isSome = true := by
  have owner : emitter.frame.owner? = program.owner? decl := by
    rw [← form.owner?_program, ← covers.program, ← covers.decl]
    rfl
  have found := Program.isSome_fieldOf? has
  rw [owner]
  simpa [Program.owner?, Frame.owner?] using found

/-- A name that is declared in the open scopes has a storage, or it is the name of a method or of a
class. -/
theorem lookup_cases {scopes : Scopes} (split : scopes.declarations = inner ++ outer)
    (opens : program.Opens decl outer) {declaration : Declaration}
    (found : scopes.lookup name = some declaration) :
    (emitter.frame.storage? name).isSome = true ∨
      declaration.role = .methodRole ∧ (decl.method? name).isSome = true ∨
      declaration.role = .classRole ∧ (program.class? name).isSome = true := by
  rw [Scopes.lookup, split] at found
  obtain ⟨scope, mem, looked⟩ := exists_of_findSome?_eq_some found
  have entry : (name, declaration) ∈ scope := mem_of_lookup looked
  -- the scopes of the statements come first, then that of the members, then that of the classes
  rcases mem_append.mp mem with inside | outside
  · exact .inl ((Frame.isSome_storage? _ _).mpr (.inl (covers.names scope inside _ entry)))
  · obtain ⟨members, classes, rfl, ofMembers, ofClasses⟩ := opens
    rcases mem_cons.mp outside with rfl | outside
    · rcases ofMembers _ entry with ⟨-, field⟩ | method
      · exact .inl ((Frame.isSome_storage? _ _).mpr (.inr (covers.isSome_owner? (.inl field))))
      · exact .inr (.inl method)
    · obtain rfl := mem_singleton.mp outside
      exact .inr (.inr (ofClasses _ entry))

/-- Where an emitter covers the scopes of an analysis, names have the storage that they need. -/
theorem serves {scopes : Scopes} (split : scopes.declarations = inner ++ outer)
    (opens : program.Opens decl outer) (expr : Expr) :
    program.Serves form decl (form.expr expr, emitter.frame) (expr, scopes) where
  expr := rfl
  stored name stores := by
    rcases stores with ⟨declaration, found, role⟩ | field
    · rcases covers.lookup_cases split opens found with stored | ⟨method, -⟩ | ⟨class_, -⟩
      · exact stored
      · rw [method] at role
        simp at role
      · rw [class_] at role
        simp at role
    · exact (Frame.isSome_storage? _ _).mpr (.inr (covers.isSome_owner? field))
  known := by
    rintro place rfl rfl name knows
    unfold Place.knows at knows
    simp only [Bool.or_eq_true, decide_eq_true_eq] at knows
    rcases knows with ((declared | builtin) | write) | inherited
    · obtain ⟨declaration, found⟩ := Option.isSome_iff_exists.mp declared
      rcases covers.lookup_cases split opens found with stored | ⟨-, method⟩ | ⟨-, class_⟩
      · exact .inl stored
      · exact .inr (.inr (.inl method))
      · exact .inr (.inl class_)
    · exact .inr (.inr (.inr (.inr (.inl builtin))))
    · exact .inr (.inr (.inr (.inr (.inr write))))
    · obtain ⟨ancestor, met, has⟩ := any_eq_true.mp inherited
      rcases Bool.or_eq_true_iff.mp has with field | method
      · exact .inl ((Frame.isSome_storage? _ _).mpr
          (.inr (covers.isSome_owner? (.inr ⟨ancestor, met, field⟩))))
      · exact .inr (.inr (.inr (.inl ⟨ancestor, met, method⟩)))

end Covering

/-- More variables do not matter. -/
theorem grows (covers : Covers program form decl emitter inner)
    (grows : emitter.Grows final) : Covers program form decl final inner where
  program := grows.program.trans covers.program
  decl := grows.decl.trans covers.decl
  nonempty := grows.nonempty
  names scope mem entry mem' := by
    obtain ⟨new, top, rest, before, after⟩ := grows.scopes
    have found := covers.names scope mem entry mem'
    rw [Locals.lookup, before, findSome?_cons] at found
    rw [Locals.lookup, after, findSome?_cons, lookup_append]
    cases new.lookup entry.1 with
    | some found => rfl
    | none => exact found

variable (covers : Covers program form decl emitter inner)

include covers

/-- A scope is opened. -/
theorem enter :
    Covers program form decl emitter.enter ([] :: inner) where
  program := covers.program
  decl := covers.decl
  nonempty := cons_ne_nil _ _
  names scope mem entry mem' := by
    rcases mem_cons.mp mem with rfl | mem
    · cases mem'
    · exact covers.names scope mem entry mem'

/-- A variable is declared. -/
theorem declare (name : String) (kind : Option Scalar) {new : List (String × Declaration)}
    (named : ∀ entry ∈ new, entry.1 = name) :
    Covers program form decl (emitter.declare name kind) (addInnermost new inner) := by
  have more := covers.grows (.declare covers.nonempty name kind)
  refine { more with names := fun scope mem entry mem' => ?_ }
  cases inner with
  | nil => cases mem
  | cons top rest =>
    rcases mem_cons.mp mem with rfl | mem
    · rcases mem_append.mp mem' with mem' | mem'
      · obtain ⟨scope, outer, scopes⟩ := exists_cons_of_ne_nil covers.nonempty
        rw [named entry mem']
        simp [declare, Locals.declare, Locals.lookup, scopes]
      · exact more.names top mem_cons_self entry mem'
    · exact more.names scope (mem_cons_of_mem _ mem) entry mem'

end Emitter.Covers

/-! ## Statements that are lowered -/

/-- Lists that match others in part, in a row. -/
theorem sublistForall₂_append {α β : Type} {relation : α → β → Prop} {first second : List α}
    {first' second' : List β} (one : SublistForall₂ relation first first')
    (two : SublistForall₂ relation second second') :
    SublistForall₂ relation (first ++ second) (first' ++ second') := by
  induction one with
  | @nil skipped =>
    induction skipped with
    | nil => exact two
    | cons _ _ ih => exact .cons_right ih
  | cons related _ ih => exact .cons related ih
  | cons_right _ ih => exact .cons_right ih

/-- An element of a list that matches another in part has its match. -/
theorem exists_of_sublistForall₂ {α β : Type} {relation : α → β → Prop} {list : List α}
    {list' : List β} (matched : SublistForall₂ relation list list') {element : α}
    (mem : element ∈ list) : ∃ element' ∈ list', relation element element' := by
  induction matched with
  | nil => cases mem
  | cons related _ ih =>
    rcases mem_cons.mp mem with rfl | mem
    · exact ⟨_, mem_cons_self, related⟩
    · obtain ⟨element', mem', related'⟩ := ih mem
      exact ⟨element', mem_cons_of_mem _ mem', related'⟩
  | cons_right _ ih =>
    obtain ⟨element', mem', related'⟩ := ih mem
    exact ⟨element', mem_cons_of_mem _ mem', related'⟩

section Serves

variable {program : Program} {form : Form} {decl : ClassDecl} {exit? : Option Label}
  {emitter : Emitter} {place : Place} {analysis : Analysis}

namespace Stmt

/-- Expressions that are visited are served if those of the first statement are, and those of the
rest behind it. -/
theorem serves_append {stmt : Stmt} {rest first rest' : List Stmt}
    (head : SublistForall₂ (program.Serves form decl) (blockUses exit? emitter first)
      (stmt.visits place analysis))
    (tail : ∀ {code next}, lowerBlock exit? emitter first = .ok (code, next) →
      SublistForall₂ (program.Serves form decl) (blockUses exit? next rest')
        (blockVisits place rest (stmt.analyze place analysis))) :
    SublistForall₂ (program.Serves form decl) (blockUses exit? emitter (first ++ rest'))
      (blockVisits place (stmt :: rest) analysis) := by
  rw [blockUses_append, blockVisits]
  refine sublistForall₂_append head ?_
  split
  · next lowered => exact tail lowered
  · exact .nil

/-- Expressions that are visited are served if those of a statement are, and those of the rest behind
it. -/
theorem serves_cons {stmt stmt' : Stmt} {rest rest' : List Stmt}
    (head : SublistForall₂ (program.Serves form decl) (stmt'.uses exit? emitter)
      (stmt.visits place analysis))
    (tail : ∀ {code next}, stmt'.lower exit? emitter = .ok (code, next) →
      SublistForall₂ (program.Serves form decl) (blockUses exit? next rest')
        (blockVisits place rest (stmt.analyze place analysis))) :
    SublistForall₂ (program.Serves form decl) (blockUses exit? emitter (stmt' :: rest'))
      (blockVisits place (stmt :: rest) analysis) := by
  rw [blockUses, blockVisits]
  refine sublistForall₂_append head ?_
  split
  · next lowered => exact tail lowered
  · exact .nil

end Stmt

end Serves

/-- Lowering and analysis come to statements: the emitter covers the scopes that are open for them
besides those of the class. There is such a scope, unless the statements declare nothing. -/
def Emitter.Meets (program : Program) (form : Form) (decl : ClassDecl) (emitter : Emitter)
    (analysis : Analysis) (block : List Stmt) : Prop :=
  ∃ inner outer, Emitter.Covers program form decl emitter inner ∧ program.Opens decl outer ∧
    analysis.scopes.declarations = inner ++ outer ∧ (inner = [] → declaredOnTop block = [])

namespace Emitter.Meets

variable {program : Program} {form : Form} {decl : ClassDecl} {exit? : Option Label}
  {emitter next : Emitter} {analysis after : Analysis} {block rest : List Stmt} {stmt : Stmt}

section Met

variable (meets : Meets program form decl emitter analysis block)

include meets

theorem serves (expr : Expr) :
    program.Serves form decl (form.expr expr, emitter.frame) (expr, analysis.scopes) := by
  obtain ⟨inner, outer, covers, opens, split, -⟩ := meets
  exact covers.serves split opens expr

/-- Both open a scope for a block. -/
theorem enter (keeps : analysis.Keeps after) (block' : List Stmt) :
    Meets program form decl emitter.enter after.enter block' := by
  obtain ⟨inner, outer, covers, opens, split, -⟩ := meets
  refine ⟨[] :: inner, outer, covers.enter, opens, ?_, nofun⟩
  exact congrArg ([] :: ·) (keeps.declarations.trans split)

theorem takeLabels : Meets program form decl emitter.takeLabels analysis block := by
  obtain ⟨inner, outer, covers, opens, split, room⟩ := meets
  exact ⟨inner, outer, ⟨covers.program, covers.decl, covers.nonempty, covers.names⟩, opens, split,
    room⟩

/-- The analysis opens a scope for a block that takes the place of its statement. -/
theorem within (keeps : analysis.Keeps after) (block' : List Stmt) :
    Meets program form decl emitter after.enter block' := by
  obtain ⟨inner, outer, covers, opens, split, -⟩ := meets
  refine ⟨[] :: inner, outer, { covers with names := ?_ }, opens, ?_, nofun⟩
  · exact covers.enter.names
  · exact congrArg ([] :: ·) (keeps.declarations.trans split)

end Met

theorem grows (meets : Meets program form decl emitter analysis block)
    (grows : emitter.Grows next) : Meets program form decl next analysis block := by
  obtain ⟨inner, outer, covers, rest⟩ := meets
  exact ⟨inner, outer, covers.grows grows, rest⟩

theorem nonempty (meets : Meets program form decl emitter analysis block) :
    emitter.frame.locals.scopes ≠ [] := by
  obtain ⟨_, _, covers, -⟩ := meets
  exact covers.nonempty

/-- Both come to the statements behind one that declares nothing. -/
theorem later (meets : Meets program form decl emitter analysis (stmt :: rest))
    (undeclared : stmt.declared? = none) (place : Place) (grows : emitter.Grows next) :
    Meets program form decl next (stmt.analyze place analysis) rest := by
  obtain ⟨inner, outer, covers, opens, split, room⟩ := meets
  have kept := (keeps_analyze undeclared place analysis).declarations
  refine ⟨inner, outer, covers.grows grows, opens, kept.trans split, fun none => ?_⟩
  have nothing := room none
  rwa [declaredOnTop_cons, undeclared] at nothing

/-- Both come to the statements behind one that declares nothing and that is lowered. -/
theorem lowered (meets : Meets program form decl emitter analysis (stmt :: rest))
    (undeclared : stmt.declared? = none) (place : Place) {stmt' : Stmt} {code : List Instruction}
    (lowered : stmt'.lower exit? emitter = .ok (code, next)) :
    Meets program form decl next (stmt.analyze place analysis) rest :=
  meets.later undeclared place ((emits_lower stmt' lowered).grows meets.nonempty)

/-- Both come to the statements behind a declaration. -/
theorem declare {init : Expr} {position : Position}
    (meets : Meets program form decl emitter analysis (.declare name init position :: rest))
    (place : Place) (kind : Option Scalar) :
    Meets program form decl (emitter.declare name kind)
      (analyze place (.declare name init position) analysis) rest := by
  obtain ⟨inner, outer, covers, opens, split, room⟩ := meets
  have grows : Analysis.Grows (fun entry => entry.1 = name) analysis
      (analysis.visitDeclare place name init position) := analysis.grows_visitDeclare place init rfl
  obtain ⟨new, added, named⟩ := grows.declarations
  cases inner with
  -- a declaration needs a scope of its own, which an initial value does not have
  | nil => cases room rfl
  | cons scope inner =>
    refine ⟨addInnermost new (scope :: inner), outer, covers.declare name kind named, opens, ?_,
      nofun⟩
    rw [analyze, added, split]
    rfl

end Emitter.Meets

/-- All expressions of what is left of well placed statements are served. -/
theorem Stmt.Leaves.serves {program : Program} {form : Form} {decl : ClassDecl}
    {block block' : List Stmt} (leaves : Leaves form.expr block block')
    {exit? : Option Label} {emitter : Emitter} {place : Place} {analysis : Analysis}
    {insideLoop : Bool} (placed : blockWellPlaced insideLoop block = true)
    (meets : Emitter.Meets program form decl emitter analysis block) :
    SublistForall₂ (program.Serves form decl) (blockUses exit? emitter block')
      (blockVisits place block analysis) := by
  have tested (place : Place) (test : Expr) (findings : List Diagnostic) (analysis : Analysis) :
      analysis.Keeps (analysis.visitTest place test findings) :=
    (analysis.keeps_visit place test).trans (keeps_reportAll _ findings)
  induction leaves generalizing exit? emitter place analysis insideLoop with
  | stop => exact .nil
  | drop undeclared _ later =>
    rw [blockWellPlaced, Bool.and_eq_true] at placed
    -- what is dropped declares nothing, so the emitter covers the same scopes behind it
    have behind := meets.later undeclared place (.refl meets.nonempty)
    exact sublistForall₂_append .nil (later placed.2 behind)
  | @taken test body _ alternative _ _ _ _ _ inner later =>
    rw [blockWellPlaced, Bool.and_eq_true] at placed
    refine serves_append ?_ fun lowered =>
      later placed.2 (meets.later rfl place ((emits_lowerBlock _ lowered).grows meets.nonempty))
    -- the analysis has opened a scope for the body, the emitter has not: its variables stay
    have entered := meets.within (tested place test (checkBranchTest test) analysis) body
    cases alternative with
    | none => exact .cons_right (inner placed.1 entered)
    | some alternative =>
      refine .cons_right ?_
      rw [← append_nil (blockUses ..)]
      exact sublistForall₂_append (inner (Bool.and_eq_true_iff.mp placed.1).1 entered) .nil
  | @otherwise test body alternative _ _ _ _ _ _ inner later =>
    simp only [blockWellPlaced, Stmt.wellPlaced, Bool.and_eq_true] at placed
    refine serves_append ?_ fun lowered =>
      later placed.2 (meets.later rfl place ((emits_lowerBlock _ lowered).grows meets.nonempty))
    -- the analysis comes through the body first, and leaves its scope again
    have passed := (tested place test (checkBranchTest test) analysis).trans
      (keeps_within _ (grows_analyzeBlock place body _))
    exact .cons_right (sublistForall₂_append .nil (inner placed.1.2 (meets.within passed _)))
  | declare _ later =>
    rw [blockWellPlaced, Bool.and_eq_true] at placed
    refine serves_cons (.cons (meets.serves _) .nil) fun lowered => ?_
    rw [lower] at lowered
    obtain ⟨code, -, result⟩ := exists_ok_of_bind lowered
    cases result
    exact later placed.2 (meets.declare place _)
  | @assign target _ _ _ _ _ later =>
    rw [blockWellPlaced, Bool.and_eq_true] at placed
    -- the target is lowered as it is written; being a name, it is the same in both forms
    have same : target = form.expr target := by
      cases target with
      | ident => cases form <;> rfl
      | _ => cases placed.1
    have served : program.Serves form decl (target, emitter.frame) (target, analysis.scopes) := by
      have served := meets.serves target
      rwa [← same] at served
    refine serves_cons (.cons (meets.serves _) (.cons served .nil)) fun lowered => ?_
    exact later placed.2 (meets.lowered rfl place lowered)
  | @branch test body _ _ _ _ _ _ inner later =>
    rw [blockWellPlaced, Bool.and_eq_true] at placed
    have entered := meets.takeLabels.enter (tested place test (checkBranchTest test) analysis) body
    refine serves_cons (.cons (meets.serves _) (inner placed.1 entered)) fun lowered => ?_
    exact later placed.2 (meets.lowered rfl place lowered)
  | @alternative test body body' alternative _ _ _ _ _ _ _ inner other later =>
    simp only [blockWellPlaced, Stmt.wellPlaced, Bool.and_eq_true] at placed
    refine serves_cons (.cons (meets.serves _) ?_) fun lowered =>
      later placed.2 (meets.lowered rfl place lowered)
    have entered := meets.takeLabels.enter (tested place test (checkBranchTest test) analysis) body
    refine sublistForall₂_append (inner placed.1.1 entered) ?_
    -- lowering comes to the alternative only if the body is lowered
    split
    · next lowered =>
        have passed := (tested place test (checkBranchTest test) analysis).trans
          (keeps_within _ (grows_analyzeBlock place body _))
        have left := (emits_lowerBlock body' lowered).grows (cons_ne_nil _ _)
        have behind := meets.takeLabels.grows (left.block meets.nonempty)
        exact other placed.1.2 (behind.enter passed alternative)
    · exact .nil
  | @loop test body _ position _ _ _ _ inner later =>
    rw [blockWellPlaced, Bool.and_eq_true] at placed
    have entered := meets.takeLabels.enter (tested place test (checkLoop test body position) analysis)
      body
    refine serves_cons (.cons (meets.serves _) (inner placed.1 entered)) fun lowered => ?_
    exact later placed.2 (meets.lowered rfl place lowered)
  | ret _ later | eval _ later =>
    rw [blockWellPlaced, Bool.and_eq_true] at placed
    refine serves_cons (.cons (meets.serves _) .nil) fun lowered => ?_
    exact later placed.2 (meets.lowered rfl place lowered)
  | leave _ later =>
    rw [blockWellPlaced, Bool.and_eq_true] at placed
    refine serves_cons .nil fun lowered => ?_
    exact later placed.2 (meets.lowered rfl place lowered)

/-! ## Programs -/

/-- A name that occurs by itself in a call occurs in what is called or in the arguments. -/
theorem Expr.occurs_of_call {callee : Expr} {arguments : List Expr} {position position' : Position}
    (occurs : ⟨position, name, false⟩ ∈ (call callee arguments position').occurrences) :
    ⟨position, name, false⟩ ∈ callee.occurrences ∨
      ⟨position, name, false⟩ ∈ listOccurrences arguments := by
  cases callee with
  | ident => exact .inr occurs
  | member receiver called =>
    cases own : receiver.isSelf with
    | false =>
      rw [occurrences_member own]
      exact mem_append.mp occurs
    | true =>
      cases receiver with
      | self => exact .inr occurs
      | _ => cases own
  | _ => exact mem_append.mp occurs

mutual

/-- A name that occurs by itself in an expression without unknown names is known. -/
theorem Expr.known_of_undeclared {known : String → Bool} {expr : Expr}
    (undeclared : expr.undeclared known = []) {position : Position} {name : String}
    (occurs : ⟨position, name, false⟩ ∈ expr.occurrences) : known name = true := by
  match expr with
  | .ident other _ _ =>
    cases mem_singleton.mp occurs
    rw [Expr.undeclared] at undeclared
    split at undeclared
    · assumption
    · cases undeclared
  | .binary _ left right _ =>
    rw [Expr.undeclared, append_eq_nil_iff] at undeclared
    rcases mem_append.mp occurs with occurs | occurs
    · exact known_of_undeclared undeclared.1 occurs
    · exact known_of_undeclared undeclared.2 occurs
  | .member target _ _ =>
    cases own : target.isSelf with
    | false =>
      rw [occurrences_member own] at occurs
      rw [Expr.undeclared] at undeclared
      exact Expr.known_of_undeclared undeclared occurs
    | true =>
      cases target with
      | self => cases mem_singleton.mp occurs
      | _ => cases own
  | .call callee arguments _ =>
    rw [Expr.undeclared, append_eq_nil_iff] at undeclared
    rcases occurs_of_call occurs with occurs | occurs
    · exact known_of_undeclared undeclared.1 occurs
    · exact known_of_undeclaredList undeclared.2 occurs
  | .self _ | .int _ _ | .real _ _ | .bool _ _ => cases occurs

theorem Expr.known_of_undeclaredList {known : String → Bool} {exprs : List Expr}
    (undeclared : undeclaredList known exprs = []) {position : Position} {name : String}
    (occurs : ⟨position, name, false⟩ ∈ listOccurrences exprs) : known name = true := by
  match exprs with
  | [] => cases occurs
  | expr :: rest =>
    rw [undeclaredList, append_eq_nil_iff] at undeclared
    rcases mem_append.mp occurs with occurs | occurs
    · exact known_of_undeclared undeclared.1 occurs
    · exact known_of_undeclaredList undeclared.2 occurs

end

/-- A declaration keeps the names that are variables, and adds its own. -/
theorem Locals.isSome_lookup_declare {ι : Type} {locals : Locals ι} (nonempty : locals.scopes ≠ [])
    {other : String} (info : ι) (known : name = other ∨ (locals.lookup name).isSome = true) :
    ((locals.declare other info).lookup name).isSome = true := by
  obtain ⟨scope, outer, scopes⟩ := exists_cons_of_ne_nil nonempty
  simp only [lookup, declare, scopes, findSome?_cons, lookup_cons] at known ⊢
  by_cases same : name = other
  · simp [same]
  · rw [beq_false_of_ne same]
    exact known.resolve_left same

/-- Declarations keep the names that are variables, and add their own. -/
theorem Locals.isSome_lookup_foldl {ι : Type} {locals : Locals ι} (nonempty : locals.scopes ≠ [])
    (params : List (String × ι)) :
    let after := params.foldl (fun locals param => locals.declare param.1 param.2) locals
    after.scopes ≠ [] ∧ ∀ name,
      (name ∈ params.map Prod.fst ∨ (locals.lookup name).isSome = true) →
        (after.lookup name).isSome = true := by
  induction params generalizing locals with
  | nil => exact ⟨nonempty, fun name known => known.resolve_left not_mem_nil⟩
  | cons param rest ih =>
    obtain ⟨new, scope, outer, -, after⟩ := Adds.declare nonempty param.1 param.2
    obtain ⟨stays, found⟩ := ih (after ▸ cons_ne_nil _ _)
    refine ⟨stays, fun name known => found name ?_⟩
    rcases known with mem | known
    · rcases mem_cons.mp mem with same | later
      · exact .inr (isSome_lookup_declare nonempty _ (.inl same))
      · exact .inl later
    · exact .inr (isSome_lookup_declare nonempty _ (.inr known))

section Programs

variable {program : Program} {form : Form} {decl : ClassDecl} {params : List Param}
  {block : List Stmt} {place : Place} {analysis : Analysis}

/-- Lowering and analysis come to all statements of a class. -/
theorem Program.Analyzes.meets (analyzes : program.Analyzes decl params block place analysis)
    (low : Nat) :
    Emitter.Meets program form decl
      (Emitter.ofParams (form.program program) (form.decl decl) params low) analysis block := by
  obtain ⟨inner, outer, split, opens, named, room⟩ := analyzes.exists_scopes
  have start : (Locals.empty : Locals (Option Scalar)).scopes ≠ [] := cons_ne_nil _ _
  obtain ⟨nonempty, found⟩ := Locals.isSome_lookup_foldl start
    (params.map fun param => (param.name, Scalar.ofType? param.type))
  refine ⟨inner, outer, ⟨rfl, rfl, nonempty, fun scope mem entry mem' => ?_⟩, opens, split, room⟩
  refine found entry.1 (.inl ?_)
  rw [map_map]
  exact named scope mem entry mem'

/-- The place at which the analysis comes to statements of a class is in the class. -/
theorem Program.Analyzes.place_eq (analyzes : program.Analyzes decl params block place analysis) :
    place.program = program ∧ place.decl = decl ∧ place.insideLoop = false := by
  cases analyzes <;> exact ⟨rfl, rfl, rfl⟩

/-- A member of a class in a form is a form of a member. -/
theorem Form.mem_members {member' : Member} (mem : member' ∈ (form.decl decl).members) :
    ∃ member ∈ decl.members, member' = form.member member := by
  cases form with
  | written => exact ⟨member', mem, rfl⟩
  | simplified =>
    obtain ⟨member, mem', rfl⟩ := mem_map.mp mem
    exact ⟨member, mem', rfl⟩

/-- The statements of a class that are lowered are forms of those that the analysis comes to. -/
theorem Program.exists_analyzes (mem : decl ∈ program.classes) {block' : List Stmt}
    (lowers : (form.decl decl).Lowers params block') :
    ∃ block place analysis, program.Analyzes decl params block place analysis ∧
      block' = form.block block := by
  obtain ⟨before, after, classes⟩ := append_of_mem mem
  cases lowers with
  | @field field' owned =>
    obtain ⟨member', mem', found⟩ := mem_filterMap.mp owned
    obtain ⟨member, memMember, rfl⟩ := Form.mem_members mem'
    obtain ⟨first, later, members⟩ := append_of_mem memMember
    cases member with
    | method method => cases form <;> cases found
    | field field =>
      refine ⟨_, _, _, .field classes members, ?_⟩
      cases form <;> cases found <;> rfl
  | init =>
    refine ⟨_, _, _, .init classes, ?_⟩
    cases form <;> rfl
  | @method method' owned =>
    obtain ⟨member', mem', found⟩ := mem_filterMap.mp owned
    obtain ⟨member, memMember, rfl⟩ := Form.mem_members mem'
    obtain ⟨first, later, members⟩ := append_of_mem memMember
    cases member with
    | field field => cases form <;> cases found
    | method method =>
      have analyzes := Analyzes.method classes members
      cases form <;> cases found <;> exact ⟨_, _, _, analyzes, rfl⟩

variable (clean : program.analyze.isClean = true)
  (analyzes : program.Analyzes decl params block place analysis)

include clean analyzes

/-- Statements that the analysis comes to are well placed if the whole analysis is clean. -/
theorem Program.Analyzes.wellPlaced :
    blockWellPlaced (none : Option Label).isSome block = true := by
  have placed := blockWellPlaced_of_clean (analyzes.clean clean)
  rwa [analyzes.place_eq.2.2] at placed

/-- All expressions of statements that the analysis comes to are served in both forms. -/
theorem Program.Analyzes.serves (form : Form) (low : Nat) :
    SublistForall₂ (program.Serves form decl)
      (blockUses none (Emitter.ofParams (form.program program) (form.decl decl) params low)
        (form.block block))
      (blockVisits place block analysis) :=
  (form.leaves_block block).serves (analyzes.wellPlaced clean) (analyzes.meets low)

/-- A fault of statements that the analysis found clean comes from an expression that it visited, so
it is about an unknown name only if the name means something that has no storage. -/
theorem Program.Analyzes.fault_cases {low : Nat} {fault : Fault}
    (fromUse : fault.FromUse (blockUses none
      (Emitter.ofParams (form.program program) (form.decl decl) params low) (form.block block))) :
    fault.cause ≠ .invalidAssignTarget ∧ fault.cause ≠ .breakOutsideLoop ∧
      ∀ name, fault.cause = .unknownIdentifier name → program.NamesOther decl name := by
  obtain ⟨ofProgram, ofClass, -⟩ := analyzes.place_eq
  obtain ⟨use, mem, failure⟩ := fromUse
  obtain ⟨visit, visited, serves⟩ := exists_of_sublistForall₂ (analyzes.serves clean form low) mem
  -- the expression at fault was visited, and all names in it were known then
  have undeclared := undeclared_blockVisits (analyzes.clean clean) visited
  have ofExpr := ofExpr_lower _ _ _ failure
  refine ⟨fun cause => ?_, fun cause => ?_, fun name cause => ?_⟩
  · rwa [Fault.OfExpr, cause] at ofExpr
  · rwa [Fault.OfExpr, cause] at ofExpr
  · rw [Fault.OfExpr, cause] at ofExpr
    obtain ⟨unstored, occurs⟩ := ofExpr
    rw [serves.expr, form.occurrences_expr] at occurs
    have known := known_of_undeclared undeclared occurs
    refine (serves.known place ofProgram ofClass name known).resolve_left ?_
    simp [unstored]

end Programs

/-- If the analysis of a program is clean, lowering it as it is written or simplified has no fault
about the place of an assignment or an exit. Its faults come from expressions in the class that is
being lowered, and a name is unknown there only if it is the name of a class, of a method of that
class or its ancestors, of a built-in type or of the routine that writes a value out. Wherever the
analysis takes a name for a parameter, a variable or a field, lowering has a storage for it. -/
theorem Program.lower_of_isClean {program : Program} (clean : program.analyze.isClean = true)
    (form : Form) :
    (∀ fault, (form.program program).lower = .error fault →
      ∃ decl ∈ program.classes, (form.program program).StopsIn (form.decl decl) fault ∧
        (∃ params block place analysis low, program.Analyzes decl params block place analysis ∧
          fault.FromUse (blockUses none
            (Emitter.ofParams (form.program program) (form.decl decl) params low)
            (form.block block))) ∧
        fault.cause ≠ .invalidAssignTarget ∧ fault.cause ≠ .breakOutsideLoop ∧
        ∀ name, fault.cause = .unknownIdentifier name → program.NamesOther decl name) ∧
    ∀ decl params block place analysis low, program.Analyzes decl params block place analysis →
      List.SublistForall₂ (program.Serves form decl)
        (blockUses none (Emitter.ofParams (form.program program) (form.decl decl) params low)
          (form.block block))
        (blockVisits place block analysis) := by
  refine ⟨fun fault failure => ?_, fun decl params block place analysis low analyzes => ?_⟩
  · obtain ⟨decl', before, after, low, classes, earlier, failure⟩ := Program.exists_stopsIn _ failure
    have mem' : decl' ∈ (form.program program).classes := classes ▸ mem_append_right _ mem_cons_self
    rw [form.classes_program] at mem'
    obtain ⟨decl, mem, rfl⟩ := mem_map.mp mem'
    -- the fault comes from statements of the class, which the analysis came to as well
    obtain ⟨params, block', low', lowers, failure'⟩ := ClassDecl.inClass_lower _ failure
    obtain ⟨block, place, analysis, analyzes, rfl⟩ := Program.exists_analyzes mem lowers
    have placed := (form.leaves_block block).wellPlaced (analyzes.wellPlaced clean)
    have fromUse := fromUse_lowerBlock _ placed _ failure'
    exact ⟨decl, mem, ⟨before, after, low, classes, earlier, failure⟩,
      ⟨params, block, place, analysis, low', analyzes, fromUse⟩, analyzes.fault_cases clean fromUse⟩
  · exact analyzes.serves clean form low

/-- A class extends another: its method uses a parameter, an inherited field, and a variable of a
branch that is always taken. Then it uses a class as a value. -/
def classAsValue : Program :=
  let here : Position := ⟨1, 1⟩
  let name (text : String) : Expr := .ident text [] here
  let test : Expr := .binary .lt (.int "1" here) (.int "2" here) here
  let taken : List Stmt := [.declare "y" (name "x") here, .assign (name "count") (name "y") here]
  let run : Method := ⟨"run", [⟨"count", ⟨"Integer", [], here⟩, here⟩], none,
    [.branch test taken none here, .declare "other" (name "A") ⟨2, 1⟩], here⟩
  ⟨[⟨"A", none, [], [.field ⟨"x", .int "1" here, here⟩], here⟩,
    ⟨"B", some "A", [], [.method run], here⟩]⟩

/-- Nothing is wrong with this program, and the only name that lowering does not know is that of the
class. -/
theorem Program.lower_classAsValue : classAsValue.analyze.isClean = true ∧
    ∃ fault, classAsValue.simplify.lower = .error fault ∧ fault.cause = .unknownIdentifier "A" ∧
      ∃ decl ∈ classAsValue.classes, classAsValue.simplify.StopsIn decl.simplify fault ∧
        classAsValue.NamesOther decl "A" := by
  have clean : classAsValue.analyze.isClean = true := by decide +kernel
  have stops : ∃ fault, classAsValue.simplify.lower = .error fault ∧
      fault.cause = .unknownIdentifier "A" := ⟨_, rfl, rfl⟩
  obtain ⟨fault, failure, cause⟩ := stops
  obtain ⟨decl, mem, stopsIn, -, -, -, other⟩ :=
    (Program.lower_of_isClean clean .simplified).1 fault failure
  exact ⟨clean, fault, failure, cause, decl, mem, stopsIn, other "A" cause⟩

end ClassLang
