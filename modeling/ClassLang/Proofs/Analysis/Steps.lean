import ClassLang.Proofs.Analysis

/-! # Steps of the analysis of statements

The analysis of a statement has three parts. What is found about its own expressions is reported, its
variable is declared, and its blocks are analysed, each in a scope of its own. The first part reads the
open scopes and changes nothing in them (`Stmt.findings`), the second changes the innermost scope
(`Stmt.declareIn`), and `Stmt.analyze_eq` puts the three together. A fact about all statements then follows
from one fact for each part. -/

namespace ClassLang

open Diagnostic

namespace Analysis

/-! ## Reports -/

section Moves

variable (analysis : Analysis)

/-- Nothing is reported. -/
@[simp] theorem reportAll_nil : analysis.reportAll [] = analysis := by
  simp [reportAll]

/-- Diagnostics are reported in order. -/
theorem reportAll_append (first second : List Diagnostic) :
    analysis.reportAll (first ++ second) = (analysis.reportAll first).reportAll second := by
  simp [reportAll]

/-- Reporting changes no scope. -/
@[simp] theorem scopes_reportAll (diagnostics : List Diagnostic) :
    (analysis.reportAll diagnostics).scopes = analysis.scopes := rfl

/-- Diagnostics come behind those from before. -/
@[simp] theorem diagnostics_reportAll (diagnostics : List Diagnostic) :
    (analysis.reportAll diagnostics).diagnostics = analysis.diagnostics ++ diagnostics := rfl

/-- A finding is a diagnostic at its position. -/
theorem report_eq_reportAll (finding : Finding) (position : Position) :
    analysis.report finding position = analysis.reportAll [⟨finding, position⟩] := rfl

@[simp] theorem diagnostics_enter :
    analysis.enter.diagnostics = analysis.diagnostics := rfl

end Moves

/-- A part of the analysis with a scope of its own: the scope is opened before it and closed behind
it. -/
theorem scopes_within (part : Analysis → Analysis) (analysis : Analysis) :
    (analysis.within part).scopes = (part analysis.enter).scopes.exit := rfl

/-- Recording a type reports nothing. -/
@[simp] theorem diagnostics_recordType? (analysis : Analysis) (path : List String) (name : String)
    (type? : Option String) :
    (analysis.recordType? path name type?).diagnostics = analysis.diagnostics := by
  cases type? <;> rfl

end Analysis

/-! ## Findings about other things than expressions -/

/-- Whether a diagnostic is about neither the names in an expression nor their types. -/
def Diagnostic.isAside : Diagnostic → Bool
  | ⟨.undeclared _, _⟩ => false
  | ⟨.typeMismatch _ _ _, _⟩ => false
  | _ => true

mutual

/-- What is wrong with a type is aside; an unknown type is not an undeclared name. -/
theorem TypeRef.all_isAside_check (program : Program) (type : TypeRef) :
    (type.check program).all isAside = true := by
  obtain ⟨name, arguments, position⟩ := type
  have unapplied :
      (checkUnapplied ⟨name, arguments, position⟩).all isAside = true := by
    unfold checkUnapplied
    split <;> rfl
  rw [check]
  split
  · split
    · rw [List.all_append, all_isAside_checkList program arguments, Bool.and_true]
      split <;> rfl
    · exact unapplied
  · split
    · exact unapplied
    · rfl

theorem TypeRef.all_isAside_checkList (program : Program) (types : List TypeRef) :
    (checkList program types).all isAside = true := by
  cases types with
  | nil => rfl
  | cons type rest =>
    rw [checkList, List.all_append, type.all_isAside_check,
      all_isAside_checkList program rest, Bool.and_true]

end

/-- What is wrong with a base is aside; a base that is not found is not an undeclared name. -/
theorem Program.all_isAside_checkBase (program : Program) (decl : ClassDecl) :
    (program.checkBase decl).all isAside = true := by
  unfold checkBase
  repeat' split
  all_goals rfl

/-- What is wrong with a method that overrides another is aside. -/
theorem Program.all_isAside_checkOverride (program : Program) (decl : ClassDecl)
    (method : Method) : (program.checkOverride decl method).all isAside = true := by
  unfold checkOverride
  repeat' split
  all_goals rfl

/-- What is dubious about a test is aside. -/
theorem all_isAside_checkBranchTest (test : Expr) : (checkBranchTest test).all isAside = true := by
  unfold checkBranchTest
  split <;> rfl

/-- What is dubious about a loop is aside. -/
theorem all_isAside_checkLoop (test : Expr) (body : List Stmt) (position : Position) :
    (checkLoop test body position).all isAside = true := by
  unfold checkLoop
  rw [List.all_append]
  repeat' split
  all_goals rfl

/-! ## One statement -/

namespace Stmt

variable (place : Place)

/-- What is found about an assignment to a target: a plain name is looked up and its type compared,
anything else is no target. -/
def targetFindings (analysis : Analysis) (target value : Expr)
    (position : Position) : List Diagnostic :=
  match target with
  | .ident name [] _ =>
    target.undeclared (place.knows analysis.scopes) ++ analysis.checkAssigned name value position
  | _ => [⟨.badAssignTarget, target.position⟩]

/-- What is found about a statement itself, outside of its blocks. A name that is declared twice is
found when it is declared. -/
def findings (analysis : Analysis) : Stmt → List Diagnostic
  | .declare _ init _ => init.undeclared (place.knows analysis.scopes)
  | .assign target value position =>
    value.undeclared (place.knows analysis.scopes) ++
      targetFindings place analysis target value position
  | .branch test _ _ _ => test.undeclared (place.knows analysis.scopes) ++ checkBranchTest test
  | .loop test body position =>
    test.undeclared (place.knows analysis.scopes) ++ checkLoop test body position
  | .ret value position =>
    (if place.insideMethod then [] else [⟨.returnOutsideMethod, position⟩]) ++
      value.undeclared (place.knows analysis.scopes)
  | .leave position => if place.insideLoop then [] else [⟨.breakOutsideLoop, position⟩]
  | .eval value _ => value.undeclared (place.knows analysis.scopes)

/-- Declare the variable of a statement, if it has one, with the type of its initial value. -/
def declareIn (analysis : Analysis) : Stmt → Analysis
  | .declare name init position =>
    let declared := analysis.declare name .variableRole position (.duplicateVariable name)
    declared.recordType? place.path name (declared.infer init)
  | _ => analysis

/-- A statement that declares nothing changes no scope by itself. -/
theorem declareIn_of_declared? {stmt : Stmt} (nothing : stmt.declared? = none) (place : Place)
    (analysis : Analysis) : stmt.declareIn place analysis = analysis := by
  cases stmt with
  | declare name init => cases nothing
  | _ => rfl

/-- Where the blocks of a statement stand. -/
def inside : Stmt → Place
  | .loop _ _ _ => { place with insideLoop := true }
  | _ => place

/-- Analyse blocks in order, each in a scope of its own. -/
def analyzeBlocks (blocks : List (List Stmt)) (analysis : Analysis) : Analysis :=
  blocks.foldl (fun analysis block => analysis.within (analyzeBlock place block)) analysis

@[simp] theorem analyzeBlocks_cons (block : List Stmt) (more : List (List Stmt))
    (analysis : Analysis) :
    analyzeBlocks place (block :: more) analysis =
      analyzeBlocks place more (analysis.within (analyzeBlock place block)) := rfl

/-- The findings about an assignment in the order of the analysis. -/
theorem visitAssign_eq (analysis : Analysis) (target value : Expr) (position : Position) :
    analysis.visitAssign place target value position =
      analysis.reportAll (value.undeclared (place.knows analysis.scopes) ++
        targetFindings place analysis target value position) := by
  rw [Analysis.reportAll_append]
  cases target with
  | ident name arguments place' =>
    cases arguments with
    | nil =>
      rw [targetFindings, Analysis.reportAll_append]
      rfl
    | cons argument more => rfl
  | _ => rfl

/-- A statement is analysed in three parts: what is found about itself is reported, its variable is
declared, and its blocks are analysed. -/
theorem analyze_eq (stmt : Stmt) (analysis : Analysis) : stmt.analyze place analysis =
      analyzeBlocks (stmt.inside place) stmt.blocks
        (stmt.declareIn place (analysis.reportAll (stmt.findings place analysis))) := by
  cases stmt with
  | declare name init => rfl
  | assign target value position => exact visitAssign_eq place analysis target value position
  | branch test body alternative =>
    rw [findings, Analysis.reportAll_append]
    cases alternative <;> rfl
  | loop test body =>
    rw [findings, Analysis.reportAll_append]
    rfl
  | ret value =>
    rw [findings, Analysis.reportAll_append, analyze]
    by_cases method : place.insideMethod = true
    · simp only [if_pos method, Analysis.reportAll_nil]
      rfl
    · simp only [if_neg method]
      rfl
  | leave =>
    rw [findings, analyze]
    by_cases loop : place.insideLoop = true
    · simp only [if_pos loop, Analysis.reportAll_nil]
      rfl
    · simp only [if_neg loop]
      rfl
  | eval value => rfl

end Stmt

end ClassLang
