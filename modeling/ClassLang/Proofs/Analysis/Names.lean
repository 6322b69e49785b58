import ClassLang.Proofs.Analysis.Steps
import ClassLang.Proofs.Hierarchy.Ancestors

/-! # Lexical scoping

`Program.mentions` lists the names that a program mentions, each with what stands around it: the class,
the parameters of the method, and the statements before it in each of the blocks around it.
`Program.Visible` says which names mean something there. It speaks of the text only, and knows no
stack of scopes.

The analysis keeps such a stack. Each declaration adds its name to the innermost scope
(`Analysis.Adds`), and so the open scopes hold what the text around a place declares
(`Place.Agrees`). -/

namespace ClassLang

open Stmt List

/-! ## Names that are mentioned -/

mutual

/-- The names in an expression, with their places. The name of a member is none of them. -/
def Expr.names : Expr → List (String × Position)
  | .ident name _ position => [(name, position)]
  | .binary _ left right _ => left.names ++ right.names
  | .member target _ _ => target.names
  | .call callee arguments _ => callee.names ++ Expr.listNames arguments
  | _ => []

/-- The names in expressions, with their places. -/
def Expr.listNames : List Expr → List (String × Position)
  | [] => []
  | expr :: rest => expr.names ++ Expr.listNames rest

end

/-- The names in a statement, outside of its blocks. A target of an assignment that is no plain name
is rejected as a whole, and the names in it do not count. -/
def Stmt.names : Stmt → List (String × Position)
  | .declare _ init _ => init.names
  | .assign (.ident name [] position) value _ => value.names ++ [(name, position)]
  | .assign _ value _ => value.names
  | .branch test _ _ _ => test.names
  | .loop test _ _ => test.names
  | .ret value _ => value.names
  | .leave _ => []
  | .eval value _ => value.names

/-- What stands around a name. -/
structure Surroundings where
  /-- The class that it stands in. -/
  decl : ClassDecl
  /-- The parameters of the method that it stands in. -/
  params : List Param
  /-- The statements before it in each of the blocks that it stands in, innermost block first. -/
  before : List (List Stmt)

/-- The surroundings in a block, behind its first statements. -/
def Surroundings.inBlock (around : Surroundings) (earlier : List Stmt) : Surroundings :=
  { around with before := earlier :: around.before }

/-- A name that a program mentions. -/
structure Mention where
  name : String
  /-- Where it stands. -/
  position : Position
  /-- What stands around it. -/
  around : Surroundings

/-- Names mentioned in the same surroundings. -/
def mentionAll (around : Surroundings) (names : List (String × Position)) : List Mention :=
  names.map fun entry => ⟨entry.1, entry.2, around⟩

mutual

/-- The names that a statement mentions. -/
def Stmt.mentions (around : Surroundings) : Stmt → List Mention
  | .branch test body none _ =>
    mentionAll around test.names ++ blockMentions around [] body
  | .branch test body (some alternative) _ =>
    mentionAll around test.names ++
      (blockMentions around [] body ++ blockMentions around [] alternative)
  | .loop test body _ => mentionAll around test.names ++ blockMentions around [] body
  | stmt => mentionAll around stmt.names

/-- The names that the statements of a block mention, behind its first statements. -/
def Stmt.blockMentions (around : Surroundings) (earlier : List Stmt) : List Stmt → List Mention
  | [] => []
  | stmt :: rest =>
    stmt.mentions (around.inBlock earlier) ++ blockMentions around (earlier ++ [stmt]) rest

end

/-- The names that a member of a class mentions. -/
def Member.mentions (decl : ClassDecl) : Member → List Mention
  | .field member => mentionAll ⟨decl, [], []⟩ member.init.names
  | .method member => blockMentions ⟨decl, member.params, []⟩ [] member.body

/-- The names that a class mentions. -/
def ClassDecl.mentions (decl : ClassDecl) : List Mention :=
  decl.members.flatMap (Member.mentions decl) ++ blockMentions ⟨decl, [], []⟩ [] decl.init

/-- The names that a program mentions, in the order of its text. -/
def Program.mentions (program : Program) : List Mention :=
  program.classes.flatMap ClassDecl.mentions

/-- A statement mentions its own names and those in its blocks. -/
theorem Stmt.mentions_eq (around : Surroundings) (stmt : Stmt) :
    stmt.mentions around =
      mentionAll around stmt.names ++ stmt.blocks.flatMap (blockMentions around []) := by
  cases stmt with
  | branch test body alternative =>
    cases alternative <;> simp [mentions, names, blocks]
  | loop test body => simp [mentions, names, blocks]
  | _ => simp [mentions, blocks]

/-! ## Names that are visible -/

/-- A name means something in its surroundings. A variable is visible behind its declaration, in the
block of the declaration and in the blocks in it. -/
inductive Program.Visible (program : Program) (around : Surroundings) (name : String) : Prop
  | ofClass {decl} (mem : decl ∈ program.classes) (named : decl.name = name)
  | ofType (type : BuiltinType) (named : type.name = name)
  | ofRoutine (named : name = writeRoutine)
  | ofMember {member} (mem : member ∈ around.decl.members) (named : member.name = name)
  | ofAncestor {ancestor member} (above : program.IsAncestor around.decl ancestor)
      (mem : member ∈ ancestor.members) (named : member.name = name)
  | ofParam {param} (mem : param ∈ around.params) (named : param.name = name)
  /-- It names a variable that an earlier statement of a block around it declares. -/
  | ofVariable {block init position} (mem : block ∈ around.before)
      (declared : declare name init position ∈ block)

/-! ## What one declaration adds -/

/-- A name is found in the open scopes if one of them declares it. -/
theorem Scopes.isSome_lookup_iff (scopes : Scopes) (name : String) :
    (scopes.lookup name).isSome = true ↔
      ∃ scope ∈ scopes.declarations, ∃ entry ∈ scope, entry.1 = name := by
  rw [Scopes.lookup, findSome?_isSome_iff]
  refine exists_congr fun scope => and_congr_right fun _ => ?_
  simp only [lookup_isSome_iff, beq_iff_eq]
  exact exists_congr fun entry => and_congr_right fun _ => eq_comm

namespace Analysis

/-- An analysis goes on and the names that can be looked up become more by some names. -/
def Adds (names : List String) (before after : Analysis) : Prop :=
  before.scopes.declarations ≠ [] → after.scopes.declarations ≠ [] ∧
    ∀ name, (after.scopes.lookup name).isSome = true ↔
      (before.scopes.lookup name).isSome = true ∨ name ∈ names

/-- Where the declarations stay, no name is added. -/
theorem Keeps.adds {before after : Analysis} (keeps : before.Keeps after) :
    Adds [] before after := by
  intro opened
  refine ⟨keeps.declarations ▸ opened, fun name => ?_⟩
  rw [Scopes.lookup, keeps.declarations, ← Scopes.lookup]
  simp

/-- Names are added in two steps. -/
theorem Adds.trans {names more : List String} {before between after : Analysis}
    (first : Adds names before between) (second : Adds more between after) :
    Adds (names ++ more) before after := by
  intro opened
  obtain ⟨opened', known⟩ := first opened
  obtain ⟨opened'', known'⟩ := second opened'
  refine ⟨opened'', fun name => ?_⟩
  rw [known', known, mem_append, or_assoc]

/-- Names are added by the steps for the elements of a list. -/
theorem Adds.foldl {α : Type} {step : Analysis → α → Analysis} {nameOf : α → String}
    (adds : ∀ analysis element, Adds [nameOf element] analysis (step analysis element))
    (elements : List α) (analysis : Analysis) :
    Adds (elements.map nameOf) analysis (elements.foldl step analysis) := by
  induction elements generalizing analysis with
  | nil => exact (Keeps.refl analysis).adds
  | cons element rest ih => exact (adds analysis element).trans (ih (step analysis element))

variable (analysis : Analysis)

/-- A declaration adds its name, whether it was taken or not. -/
theorem adds_declare (name : String) (role : Role) (position : Position) (duplicate : Finding) :
    Adds [name] analysis (analysis.declare name role position duplicate) := by
  intro opened
  obtain ⟨scope, outer, scopes⟩ := exists_cons_of_ne_nil opened
  unfold declare Scopes.declare?
  rw [scopes]
  dsimp only
  by_cases taken : (scope.lookup name).isSome = true
  · -- the name is there already, so nothing is added and nothing has to be
    rw [if_pos taken]
    refine ⟨opened, fun other => ?_⟩
    obtain ⟨entry, mem, same⟩ := lookup_isSome_iff.mp taken
    have known : (analysis.scopes.lookup name).isSome = true := by
      rw [Scopes.isSome_lookup_iff]
      exact ⟨scope, by simp [scopes], entry, mem, (beq_iff_eq.mp same).symm⟩
    change (analysis.scopes.lookup other).isSome = true ↔ _
    simp only [mem_singleton]
    exact ⟨.inl, fun either => either.elim id fun same => same ▸ known⟩
  · rw [if_neg taken]
    refine ⟨cons_ne_nil _ _, fun other => ?_⟩
    simp only [Scopes.isSome_lookup_iff, scopes, mem_cons, exists_eq_or_imp,
      not_mem_nil, or_false]
    constructor
    · rintro ((same | inScope) | inOuter)
      · exact .inr same.symm
      · exact .inl (.inl inScope)
      · exact .inl (.inr inOuter)
    · rintro ((inScope | inOuter) | same)
      · exact .inl (.inr inScope)
      · exact .inr inOuter
      · exact .inl (.inl same.symm)

theorem isSome_lookup_enter (name : String) : (analysis.enter.scopes.lookup name).isSome = true ↔
      (analysis.scopes.lookup name).isSome = true := by
  simp [Scopes.isSome_lookup_iff, enter, Scopes.enter]

theorem adds_declareClass (decl : ClassDecl) :
    Adds [decl.name] analysis (declareClass analysis decl) :=
  analysis.adds_declare _ _ _ _

theorem adds_declareMember (member : Member) :
    Adds [member.name] analysis (declareMember analysis member) := by
  cases member <;> exact analysis.adds_declare _ _ _ _

theorem adds_visitParam (place : Place) (analysis : Analysis) (param : Param) :
    Adds [param.name] analysis (visitParam place analysis param) := by
  have checked := (analysis.adds_declare param.name .parameterRole param.position
    (.duplicateParameter param.name)).trans (keeps_reportAll _ (param.type.check place.program)).adds
  exact checked.trans (keeps_recordType _ place.path param.name param.type.source).adds

end Analysis

/-- The variable of a statement is added, and nothing else. -/
theorem Stmt.adds_declareIn (place : Place) (stmt : Stmt) (analysis : Analysis) :
    Analysis.Adds (stmt.declared?.toList.map Prod.fst) analysis (stmt.declareIn place analysis) := by
  cases stmt with
  | declare name init position =>
    have declared := analysis.adds_declare name .variableRole position (.duplicateVariable name)
    exact declared.trans (Analysis.keeps_recordType? _ _ _ _).adds
  | _ => exact (Analysis.Keeps.refl analysis).adds

theorem Stmt.keeps_analyzeBlocks (place : Place) (blocks : List (List Stmt)) (analysis : Analysis) :
    analysis.Keeps (analyzeBlocks place blocks analysis) := by
  refine Analysis.Keeps.foldl (fun analysis block => ?_) blocks analysis
  exact analysis.keeps_within (grows_analyzeBlock place block _)

/-! ## Scopes that agree with the text -/

variable (program : Program)

/-- A name is declared in the program, the class, the method or the blocks around it. -/
def Program.Declares (around : Surroundings) (name : String) : Prop :=
  (∃ decl ∈ program.classes, decl.name = name) ∨
    (∃ member ∈ around.decl.members, member.name = name) ∨
    (∃ param ∈ around.params, param.name = name) ∨
    ∃ block ∈ around.before, ∃ init position, declare name init position ∈ block

/-- A name is visible if it is declared, built in or inherited. -/
theorem Program.visible_iff (around : Surroundings) (name : String) :
    program.Visible around name ↔ program.Declares around name ∨
      (∃ type : BuiltinType, type.name = name) ∨ name = writeRoutine ∨
      program.inherits around.decl name = true := by
  rw [Program.inherits_iff]
  constructor
  · rintro (⟨mem, named⟩ | ⟨type, named⟩ | named | ⟨mem, named⟩ | ⟨above, mem, named⟩ | ⟨mem, named⟩ |
      ⟨mem, declared⟩)
    · exact .inl (.inl ⟨_, mem, named⟩)
    · exact .inr (.inl ⟨type, named⟩)
    · exact .inr (.inr (.inl named))
    · exact .inl (.inr (.inl ⟨_, mem, named⟩))
    · exact .inr (.inr (.inr ⟨_, above, _, mem, named⟩))
    · exact .inl (.inr (.inr (.inl ⟨_, mem, named⟩)))
    · exact .inl (.inr (.inr (.inr ⟨_, mem, _, _, declared⟩)))
  · rintro ((⟨_, mem, named⟩ | ⟨_, mem, named⟩ | ⟨_, mem, named⟩ | ⟨_, mem, _, _, declared⟩) |
      ⟨type, named⟩ | named | ⟨_, above, _, mem, named⟩)
    · exact .ofClass mem named
    · exact .ofMember mem named
    · exact .ofParam mem named
    · exact .ofVariable mem declared
    · exact .ofType type named
    · exact .ofRoutine named
    · exact .ofAncestor above mem named

/-- Statements behind one another: the variable of the last is declared, too. -/
theorem Program.declares_inBlock_append (around : Surroundings)
    (earlier : List Stmt) (stmt : Stmt) (name : String) :
    program.Declares (around.inBlock (earlier ++ [stmt])) name ↔
      program.Declares (around.inBlock earlier) name ∨
        name ∈ stmt.declared?.toList.map Prod.fst := by
  have last : name ∈ stmt.declared?.toList.map Prod.fst ↔
      ∃ init position, declare name init position = stmt := by
    cases stmt <;> simp [declared?, eq_comm]
  simp only [Declares, Surroundings.inBlock, mem_cons, exists_eq_or_imp, mem_append,
    not_mem_nil, or_false, exists_or, last]
  grind

theorem Program.declares_inBlock_nil (around : Surroundings) (name : String) :
    program.Declares (around.inBlock []) name ↔ program.Declares around name := by
  simp [Declares, Surroundings.inBlock]

/-- The scopes open at a place hold what the text around it declares. -/
structure Place.Agrees (place : Place) (scopes : Scopes) (around : Surroundings) : Prop where
  decl : place.decl = around.decl
  /-- The names that can be looked up are those that are declared. -/
  found : ∀ name, (scopes.lookup name).isSome = true ↔ place.program.Declares around name

namespace Place.Agrees

variable {place : Place} {scopes : Scopes} {around : Surroundings}

/-- Where the scopes hold what the text declares, the analysis knows the visible names. -/
theorem knows_iff (agrees : place.Agrees scopes around) (name : String) :
    place.knows scopes name = true ↔ place.program.Visible around name := by
  have builtin : (BuiltinType.ofName? name).isSome = true ↔
      ∃ type : BuiltinType, type.name = name := by
    constructor
    · intro found
      obtain ⟨type, ofName⟩ := Option.isSome_iff_exists.mp found
      exact ⟨type, by simpa using find?_some ofName⟩
    · rintro ⟨type, rfl⟩
      simp
  rw [Program.visible_iff, ← agrees.found, ← agrees.decl]
  simp only [knows, Bool.or_eq_true, decide_eq_true_eq, builtin, or_assoc]

theorem inside (agrees : place.Agrees scopes around) (stmt : Stmt) :
    (stmt.inside place).Agrees scopes around := by
  cases stmt <;> exact ⟨agrees.decl, agrees.found⟩

theorem enter {analysis : Analysis} (agrees : place.Agrees analysis.scopes around) :
    place.Agrees analysis.enter.scopes (around.inBlock []) := by
  refine ⟨agrees.decl, fun name => ?_⟩
  rw [analysis.isSome_lookup_enter, agrees.found, Program.declares_inBlock_nil]

theorem keeps {before after : Analysis} (agrees : place.Agrees before.scopes around)
    (keeps : before.Keeps after) : place.Agrees after.scopes around := by
  refine ⟨agrees.decl, fun name => ?_⟩
  rw [← agrees.found, Scopes.lookup, keeps.declarations, Scopes.lookup]

/-- Behind a statement that adds its variable. -/
theorem step {before after : Analysis} {earlier : List Stmt} {stmt : Stmt}
    (agrees : place.Agrees before.scopes (around.inBlock earlier))
    (opened : before.scopes.declarations ≠ [])
    (adds : Analysis.Adds (stmt.declared?.toList.map Prod.fst) before after) :
    place.Agrees after.scopes (around.inBlock (earlier ++ [stmt])) := by
  refine ⟨agrees.decl, fun name => ?_⟩
  rw [(adds opened).2, agrees.found, Program.declares_inBlock_append]

end Place.Agrees

end ClassLang
