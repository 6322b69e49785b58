import Mathlib.Algebra.GroupWithZero.Nat
import ClassLang.Proofs.Analysis.Steps

/-! # Balanced scopes

A part of an analysis adds to the innermost scope and closes every scope that it opens
(`Analysis.Passes`). How many scopes it opens, and how many of them are open at once, is read off the
text: a class has a scope for its members and one for the statements run for a new object, a method
has one, and so has every block of a branch or a loop. -/

namespace ClassLang

open List

/-! ## Blocks in statements -/

namespace Stmt

mutual

/-- How many blocks there are in a statement, at any depth. A branch has one, and one more for an
alternative; a loop has one. -/
def blockCount : Stmt → Nat
  | .branch _ body none _ => 1 + innerCount body
  | .branch _ body (some alternative) _ =>
    (1 + innerCount body) + (1 + innerCount alternative)
  | .loop _ body _ => 1 + innerCount body
  | _ => 0

/-- How many blocks there are in the statements of a block, at any depth. -/
def innerCount : List Stmt → Nat
  | [] => 0
  | stmt :: rest => stmt.blockCount + innerCount rest

end

mutual

/-- How deep blocks are nested in a statement. -/
def blockDepth : Stmt → Nat
  | .branch _ body none _ => 1 + innerDepth body
  | .branch _ body (some alternative) _ =>
    max (1 + innerDepth body) (1 + innerDepth alternative)
  | .loop _ body _ => 1 + innerDepth body
  | _ => 0

/-- How deep blocks are nested in the statements of a block. -/
def innerDepth : List Stmt → Nat
  | [] => 0
  | stmt :: rest => max stmt.blockDepth (innerDepth rest)

end

end Stmt

/-- The greatest of some depths. -/
def deepest (depths : List Nat) : Nat := depths.foldr max 0

@[simp] theorem deepest_nil : deepest [] = 0 := rfl

@[simp] theorem deepest_cons (depth : Nat) (depths : List Nat) :
    deepest (depth :: depths) = max depth (deepest depths) := rfl

@[simp] theorem deepest_append (first second : List Nat) :
    deepest (first ++ second) = max (deepest first) (deepest second) := by
  induction first with
  | nil => simp
  | cons depth rest ih => simp [ih, Nat.max_assoc]

namespace Stmt

/-- Blocks are counted in the blocks of a statement, with one for each of these. -/
theorem blockCount_eq (stmt : Stmt) :
    stmt.blockCount = (stmt.blocks.map fun block => 1 + innerCount block).sum := by
  cases stmt with
  | branch test body alternative =>
    cases alternative <;> simp [blockCount, blocks]
  | _ => simp [blockCount, blocks]

/-- Blocks are nested in the blocks of a statement one deeper than there. -/
theorem blockDepth_eq (stmt : Stmt) :
    stmt.blockDepth = deepest (stmt.blocks.map fun block => 1 + innerDepth block) := by
  cases stmt with
  | branch test body alternative =>
    cases alternative <;> simp [blockDepth, blocks]
  | _ => simp [blockDepth, blocks]

end Stmt

/-! ## Parts of an analysis -/

@[simp] theorem length_addInnermost {α : Type} (new : List α) (scopes : List (List α)) :
    (addInnermost new scopes).length = scopes.length := by
  cases scopes <;> rfl

namespace Analysis

/-- A part of an analysis adds names and types to the innermost scope, and opens and closes a number of
scopes, so many of them at once. -/
structure Passes (opened height : Nat) (before after : Analysis) : Prop where
  declarations : ∃ new, after.scopes.declarations = addInnermost new before.scopes.declarations
  types : ∃ new, after.scopes.types = addInnermost new before.scopes.types
  entered : after.scopes.entered = before.scopes.entered + opened
  exited : after.scopes.exited = before.scopes.exited + opened
  /-- So many of them are open at once, on top of those that were open before. -/
  maxDepth : before.scopes.declarations.length ≤ before.scopes.maxDepth →
    after.scopes.maxDepth = max before.scopes.maxDepth (before.scopes.declarations.length + height)

namespace Passes

variable {before between after : Analysis} {opened height opened' height' : Nat}

theorem length_eq (passes : Passes opened height before after) :
    after.scopes.declarations.length = before.scopes.declarations.length := by
  obtain ⟨new, added⟩ := passes.declarations
  rw [added, length_addInnermost]

/-- A part that only reports. -/
theorem of_scopes (same : after.scopes = before.scopes) : Passes 0 0 before after where
  declarations := ⟨[], by rw [same, addInnermost_nil]⟩
  types := ⟨[], by rw [same, addInnermost_nil]⟩
  entered := by rw [same, Nat.add_zero]
  exited := by rw [same, Nat.add_zero]
  maxDepth fits := by
    rw [same]
    omega

/-- Parts in turn. -/
theorem trans (first : Passes opened height before between)
    (second : Passes opened' height' between after) :
    Passes (opened + opened') (max height height') before after := by
  obtain ⟨names, addedNames⟩ := first.declarations
  obtain ⟨newerNames, addedNewerNames⟩ := second.declarations
  obtain ⟨types, addedTypes⟩ := first.types
  obtain ⟨newerTypes, addedNewerTypes⟩ := second.types
  constructor
  · exact ⟨newerNames ++ names, by rw [addedNewerNames, addedNames, addInnermost_append]⟩
  · exact ⟨newerTypes ++ types, by rw [addedNewerTypes, addedTypes, addInnermost_append]⟩
  · rw [second.entered, first.entered, Nat.add_assoc]
  · rw [second.exited, first.exited, Nat.add_assoc]
  · -- both parts start with as many open scopes, so their heights are compared at the same level
    intro fits
    have reached := first.maxDepth fits
    have same := first.length_eq
    rw [second.maxDepth (by omega), reached, same]
    omega

/-- Parts for the elements of a list. -/
theorem foldl {α : Type} {step : Analysis → α → Analysis} {count depth : α → Nat}
    (passes : ∀ analysis element, Passes (count element) (depth element) analysis
      (step analysis element)) (elements : List α) (analysis : Analysis) :
    Passes (elements.map count).sum (deepest (elements.map depth)) analysis
      (elements.foldl step analysis) := by
  induction elements generalizing analysis with
  | nil => exact of_scopes rfl
  | cons element rest ih =>
    simp only [map_cons, sum_cons, deepest_cons, foldl_cons]
    exact (passes analysis element).trans (ih (step analysis element))

/-- Parts that open no scope, for the elements of a list. -/
theorem foldl_of_none {α : Type} {step : Analysis → α → Analysis}
    (passes : ∀ analysis element, Passes 0 0 analysis (step analysis element)) (elements : List α)
    (analysis : Analysis) : Passes 0 0 analysis (elements.foldl step analysis) :=
  elements.foldlRecOn step (of_scopes rfl) fun _ passed element _ => passed.trans (passes _ element)

end Passes

/-- Two analyses with the same names and types in their open scopes. -/
structure Alike (one two : Analysis) : Prop where
  declarations : one.scopes.declarations = two.scopes.declarations
  types : one.scopes.types = two.scopes.types

variable {analysis : Analysis} {opened height : Nat} {part : Analysis → Analysis}

/-- The scopes around a part with a scope of its own are the same again. -/
theorem Passes.alike_within (passes : Passes opened height analysis.enter (part analysis.enter)) :
    Alike (analysis.within part) analysis := by
  obtain ⟨names, addedNames⟩ := passes.declarations
  obtain ⟨types, addedTypes⟩ := passes.types
  -- what the part adds lies in the scope opened for it, which is dropped
  have innermost : (part analysis.enter).scopes.declarations =
      (names ++ []) :: analysis.scopes.declarations := addedNames
  constructor
  · rw [scopes_within, Scopes.exit, innermost]
  · rw [scopes_within, Scopes.exit, innermost]
    change (part analysis.enter).scopes.types.tail = analysis.scopes.types
    rw [addedTypes]
    rfl

/-- A part with a scope of its own opens and closes one more. -/
theorem Passes.within (passes : Passes opened height analysis.enter (part analysis.enter)) :
    Passes (1 + opened) (1 + height) analysis (analysis.within part) := by
  have restored := passes.alike_within
  obtain ⟨names, addedNames⟩ := passes.declarations
  have innermost : (part analysis.enter).scopes.declarations =
      (names ++ []) :: analysis.scopes.declarations := addedNames
  have entered : (part analysis.enter).scopes.entered = analysis.scopes.entered + 1 + opened :=
    passes.entered
  have exited : (part analysis.enter).scopes.exited = analysis.scopes.exited + opened :=
    passes.exited
  have maxDepth : (part analysis.enter).scopes.maxDepth =
      max (max analysis.scopes.maxDepth (analysis.scopes.declarations.length + 1))
        (analysis.scopes.declarations.length + 1 + height) :=
    passes.maxDepth (Nat.le_max_right _ _)
  constructor
  · exact ⟨[], by rw [restored.declarations, addInnermost_nil]⟩
  · exact ⟨[], by rw [restored.types, addInnermost_nil]⟩
  · rw [scopes_within, Scopes.exit, innermost]
    change (part analysis.enter).scopes.entered = _
    omega
  · rw [scopes_within, Scopes.exit, innermost]
    change (part analysis.enter).scopes.exited + 1 = _
    omega
  · intro fits
    rw [scopes_within, Scopes.exit, innermost]
    change (part analysis.enter).scopes.maxDepth = _
    omega

/-- A declaration opens no scope. -/
theorem passes_declare (analysis : Analysis) (name : String) (role : Role) (position : Position)
    (duplicate : Finding) :
    Passes 0 0 analysis (analysis.declare name role position duplicate) := by
  unfold declare
  split
  · next scopes declared =>
      have added := Scopes.declarations_declare? declared
      unfold Scopes.declare? at declared
      split at declared
      · cases declared
      · next opened =>
          obtain ⟨-, result⟩ := Option.ite_none_left_eq_some.mp declared
          refine ⟨⟨_, added⟩, ⟨[], ?_⟩, ?_, ?_, fun fits => ?_⟩
          all_goals cases result
          · rw [addInnermost_nil]
          · rfl
          · rfl
          · change analysis.scopes.maxDepth = _
            omega
  · exact .of_scopes rfl

/-- Recording a type opens no scope. -/
theorem passes_recordType (analysis : Analysis) (path : List String) (name type : String) :
    Passes 0 0 analysis (analysis.recordType path name type) := by
  cases found : analysis.scopes.types with
  | nil => exact .of_scopes (by rw [recordType, Scopes.setType, found])
  | cons scope outer =>
    have typed : (analysis.recordType path name type).scopes =
        { analysis.scopes with types := ((name, type) :: scope) :: outer } := by
      rw [recordType, Scopes.setType, found]
    refine ⟨⟨[], ?_⟩, ⟨[(name, type)], ?_⟩, ?_, ?_, fun fits => ?_⟩
    · rw [typed, addInnermost_nil]
    · rw [typed, found]
      rfl
    · rw [typed, Nat.add_zero]
    · rw [typed, Nat.add_zero]
    · rw [typed]
      change analysis.scopes.maxDepth = _
      omega

theorem passes_recordType? (analysis : Analysis) (path : List String) (name : String)
    (type? : Option String) : Passes 0 0 analysis (analysis.recordType? path name type?) := by
  cases type? with
  | none => exact .of_scopes rfl
  | some type => exact analysis.passes_recordType path name type

end Analysis

/-! ## Statements -/

namespace Stmt

/-- Declaring a variable opens no scope. -/
theorem passes_declareIn (place : Place) (stmt : Stmt) (analysis : Analysis) :
    Analysis.Passes 0 0 analysis (stmt.declareIn place analysis) := by
  cases stmt with
  | declare name init =>
    exact (analysis.passes_declare _ _ _ _).trans (Analysis.passes_recordType? _ _ _ _)
  | _ => exact .of_scopes rfl

/-- Blocks have scopes of their own. -/
theorem passes_analyzeBlocks {place : Place} {blocks : List (List Stmt)}
    (passes : ∀ block ∈ blocks, ∀ analysis, Analysis.Passes (innerCount block)
      (innerDepth block) analysis (analyzeBlock place block analysis)) (analysis : Analysis) :
    Analysis.Passes (blocks.map fun block => 1 + innerCount block).sum
      (deepest (blocks.map fun block => 1 + innerDepth block)) analysis
      (analyzeBlocks place blocks analysis) := by
  induction blocks generalizing analysis with
  | nil => exact .of_scopes rfl
  | cons block more ih =>
    obtain ⟨here, later⟩ := forall_mem_cons.mp passes
    simp only [map_cons, sum_cons, deepest_cons, analyzeBlocks_cons]
    exact (here analysis.enter).within.trans (ih later _)

/-- The analysis of statements opens and closes one scope for each block in them. -/
theorem passes_analyzeBlock (block : List Stmt) : ∀ (place : Place) (analysis : Analysis),
    Analysis.Passes (innerCount block) (innerDepth block) analysis
      (analyzeBlock place block analysis) := by
  induction block using block_induction with
  | nil => exact fun _ _ => .of_scopes rfl
  | cons stmt rest inBlocks ih =>
    intro place analysis
    have reported : Analysis.Passes 0 0 analysis
        (analysis.reportAll (stmt.findings place analysis)) := .of_scopes rfl
    have blocks := passes_analyzeBlocks
      (fun block mem => inBlocks block mem (stmt.inside place))
      (stmt.declareIn place (analysis.reportAll (stmt.findings place analysis)))
    have whole := (reported.trans (stmt.passes_declareIn place _)).trans blocks
    rw [← analyze_eq, ← blockCount_eq, ← blockDepth_eq] at whole
    rw [analyzeBlock, innerCount, innerDepth]
    simpa using whole.trans (ih place _)

end Stmt

/-! ## Classes and programs -/

/-- The blocks of a class that are analysed by themselves: the bodies of its methods and the
statements run for a new object. -/
def ClassDecl.bodies (decl : ClassDecl) : List (List Stmt) :=
  decl.methods.map Method.body ++ [decl.init]

/-- How many scopes are opened for a member. -/
def Member.scopeCount : Member → Nat
  | .field _ => 0
  | .method decl => 1 + Stmt.innerCount decl.body

/-- How many scopes are open at once for a member. -/
def Member.scopeDepth : Member → Nat
  | .field _ => 0
  | .method decl => 1 + Stmt.innerDepth decl.body

/-- How many scopes are opened for a class. -/
def ClassDecl.scopeCount (decl : ClassDecl) : Nat :=
  2 + decl.methods.length + (decl.bodies.map Stmt.innerCount).sum

/-- How deep blocks are nested in a class. -/
def ClassDecl.blockDepth (decl : ClassDecl) : Nat := deepest (decl.bodies.map Stmt.innerDepth)

/-- The scopes of members are those of the methods and of the blocks in them. -/
theorem ClassDecl.sum_scopeCount (decl : ClassDecl) :
    (decl.members.map Member.scopeCount).sum =
      decl.methods.length + ((decl.methods.map Method.body).map Stmt.innerCount).sum := by
  unfold methods
  induction decl.members with
  | nil => rfl
  | cons member rest ih =>
    cases member <;> simp [Member.scopeCount, ih]
    omega

/-- With the statements run for a new object, blocks are nested in a class as deep as in its bodies,
and one scope more is open there. -/
theorem ClassDecl.deepest_scopeDepth (decl : ClassDecl) :
    max (deepest (decl.members.map Member.scopeDepth)) (1 + Stmt.innerDepth decl.init) =
      1 + decl.blockDepth := by
  unfold blockDepth bodies methods
  induction decl.members with
  | nil => simp
  | cons member rest ih =>
    cases member <;> simp [Member.scopeDepth] at ih ⊢
    · exact ih
    · omega

/-- Blocks are nested in some classes as deep as in the deepest of their bodies. -/
theorem deepest_blockDepth {classes : List ClassDecl} (nonempty : classes ≠ []) :
    deepest (classes.map fun decl => 2 + decl.blockDepth) =
      2 + deepest ((classes.flatMap ClassDecl.bodies).map Stmt.innerDepth) := by
  induction classes with
  | nil => exact (nonempty rfl).elim
  | cons decl rest ih =>
    simp only [map_cons, deepest_cons, flatMap_cons, map_append, deepest_append]
    change max (2 + decl.blockDepth) _ = 2 + max decl.blockDepth _
    by_cases last : rest = []
    · simp [last]
    · rw [ih last]
      omega

namespace Analysis

variable (program : Program) (decl : ClassDecl)

/-- The head of a method opens no scope. -/
theorem passes_visitHead (method : Method) (analysis : Analysis) :
    Passes 0 0 analysis (analysis.visitHead program decl method) := by
  have param (analysis : Analysis) (param : Param) :
      Passes 0 0 analysis (visitParam (insideMethod program decl method) analysis param) := by
    have checked : Passes 0 0 (analysis.declare param.name .parameterRole param.position
        (.duplicateParameter param.name)) _ :=
      .of_scopes (scopes_reportAll _ (param.type.check program))
    exact ((analysis.passes_declare _ _ _ _).trans checked).trans (passes_recordType _ _ _ _)
  have params := Passes.foldl_of_none param method.params analysis
  have checked : Passes 0 0 (method.params.foldl (visitParam (insideMethod program decl method))
      analysis) (analysis.visitHead program decl method) := .of_scopes rfl
  exact params.trans checked

/-- A method has a scope, and the blocks in it have. -/
theorem passes_visitMember (analysis : Analysis) (member : Member) :
    Passes member.scopeCount member.scopeDepth analysis
      (visitMember program decl analysis member) := by
  cases member with
  | field field =>
    have visited : Passes 0 0 analysis
        (analysis.visit (outsideMethods program decl [decl.name]) field.init) := .of_scopes rfl
    exact visited.trans (passes_recordType? _ _ _ _)
  | method method =>
    rw [visitMember, visitMethod_eq]
    refine Passes.within ?_
    have body := Stmt.passes_analyzeBlock method.body (insideMethod program decl method)
      (analysis.enter.visitHead program decl method)
    simpa using (passes_visitHead program decl method analysis.enter).trans body

theorem alike_visitMethod (method : Method) (analysis : Analysis) :
    Alike (visitMember program decl analysis (.method method)) analysis := by
  rw [visitMember, visitMethod_eq]
  exact Passes.alike_within ((passes_visitHead program decl method analysis.enter).trans
    (Stmt.passes_analyzeBlock method.body _ _))

variable (analysis : Analysis)

/-- Declaring members opens no scope. -/
theorem passes_openClass : Passes 0 0 analysis.enter (analysis.openClass program decl) := by
  have member (analysis : Analysis) (member : Member) :
      Passes 0 0 analysis (declareMember analysis member) := by
    cases member <;> exact analysis.passes_declare _ _ _ _
  have based : Passes 0 0 analysis.enter (analysis.enter.reportAll (program.checkBase decl)) :=
    .of_scopes rfl
  exact based.trans (Passes.foldl_of_none member decl.members _)

/-- The scopes of a class within its own: those of its methods, one for the statements run for a new
object, and those of the blocks in all of them. -/
theorem passes_classBody :
    Passes (0 + (decl.members.map Member.scopeCount).sum + (1 + Stmt.innerCount decl.init))
      (max (max 0 (deepest (decl.members.map Member.scopeDepth))) (1 + Stmt.innerDepth decl.init))
      analysis.enter ((decl.members.foldl (visitMember program decl)
        (analysis.openClass program decl)).within
          (Stmt.analyzeBlock (outsideMethods program decl [decl.name, "this"]) decl.init)) :=
  ((passes_openClass program decl analysis).trans
    (Passes.foldl (passes_visitMember program decl) decl.members _)).trans
      (Stmt.passes_analyzeBlock decl.init _ _).within

theorem alike_visitClass (decl : ClassDecl) : Alike (visitClass program analysis decl) analysis :=
  (passes_classBody program decl analysis).alike_within

/-- A class has a scope for its members and one for the statements run for a new object, its methods
have scopes, and so have the blocks in all of them. -/
theorem passes_visitClass (decl : ClassDecl) :
    Passes decl.scopeCount (2 + decl.blockDepth) analysis (visitClass program analysis decl) := by
  have whole : Passes _ _ analysis (visitClass program analysis decl) :=
    (passes_classBody program decl analysis).within
  have counted : 1 + (0 + (decl.members.map Member.scopeCount).sum +
      (1 + Stmt.innerCount decl.init)) = decl.scopeCount := by
    simp only [decl.sum_scopeCount, ClassDecl.scopeCount, ClassDecl.bodies, map_append,
      sum_append, map_cons, map_nil, sum_cons, sum_nil]
    omega
  have nested : 1 + max (max 0 (deepest (decl.members.map Member.scopeDepth)))
      (1 + Stmt.innerDepth decl.init) = 2 + decl.blockDepth := by
    have depth := decl.deepest_scopeDepth
    omega
  rwa [counted, nested] at whole

end Analysis

/-- The analysis of a program opens one scope for the program, for each class one for its members and
one for the statements run for a new object, and one for each method and each block. It closes all of
them, and so many of them are open at once as the text is nested. -/
theorem Program.scopes_analyze (program : Program) :
    program.analyze.scopes.declarations = [] ∧ program.analyze.scopes.types = [] ∧
      program.analyze.scopes.entered = 1 + (program.classes.map ClassDecl.scopeCount).sum ∧
      program.analyze.scopes.exited = 1 + (program.classes.map ClassDecl.scopeCount).sum ∧
      program.analyze.scopes.maxDepth =
        1 + deepest (program.classes.map fun decl => 2 + decl.blockDepth) := by
  have classes := (Analysis.Passes.foldl_of_none
    (fun analysis decl => analysis.passes_declare _ _ _ _) program.classes (Analysis.enter {})).trans
    (Analysis.Passes.foldl (Analysis.passes_visitClass program) program.classes program.declared)
  have whole : Analysis.Passes _ _ {} program.analyze := classes.within
  have restored : Analysis.Alike program.analyze {} := classes.alike_within
  refine ⟨restored.declarations, restored.types, ?_, ?_, ?_⟩
  · simpa using whole.entered
  · simpa using whole.exited
  · simpa using whole.maxDepth (Nat.le_refl 0)

end ClassLang
