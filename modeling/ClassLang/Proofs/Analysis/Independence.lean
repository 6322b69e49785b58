import ClassLang.Proofs.Analysis.Balance
import ClassLang.Proofs.Analysis.Outline

/-! # Independent bodies

What a part of an analysis finds depends on the declarations and the types in the open scopes, not on
what was found or counted before (`Analysis.Uniform`). A method leaves the scopes around it as they
were, so whatever is analysed behind it finds the same for any body of the method.

`Program.findings` sorts the diagnostics of an analysis by the parts of the program that they were
found in. Another body for a method changes the diagnostics of that method only
(`MethodSite.around_replaced`). -/

namespace ClassLang

open Analysis List

variable {one two : Analysis}

namespace Analysis

/-! ## Parts that depend on the scopes only -/

/-- A part of an analysis finds the same in the same scopes, and leaves the same scopes. -/
def Uniform (part : Analysis → Analysis) : Prop :=
  ∀ one two : Analysis, one.Alike two → (part one).Alike (part two) ∧
    ∃ found, (part one).diagnostics = one.diagnostics ++ found ∧
      (part two).diagnostics = two.diagnostics ++ found

/-- The diagnostics that a part of an analysis adds. -/
def found (part : Analysis → Analysis) (analysis : Analysis) : List Diagnostic :=
  (part analysis).diagnostics.drop analysis.diagnostics.length

namespace Alike

variable {one two : Analysis}

theorem refl (analysis : Analysis) : analysis.Alike analysis := ⟨rfl, rfl⟩

theorem trans {three : Analysis} (first : one.Alike two) (second : two.Alike three) :
    one.Alike three :=
  ⟨first.declarations.trans second.declarations, first.types.trans second.types⟩

variable (alike : one.Alike two)

include alike

theorem lookup_eq : one.scopes.lookup = two.scopes.lookup := by
  funext name
  rw [Scopes.lookup, alike.declarations, Scopes.lookup]

theorem typeOf_eq : one.scopes.typeOf = two.scopes.typeOf := by
  funext name
  rw [Scopes.typeOf, alike.types, Scopes.typeOf]

theorem knows_eq (place : Place) : place.knows one.scopes = place.knows two.scopes := by
  funext name
  rw [Place.knows, alike.lookup_eq, Place.knows]

theorem infer_eq (expr : Expr) : one.infer expr = two.infer expr := by
  rw [infer, alike.typeOf_eq, infer]

theorem enter : one.enter.Alike two.enter :=
  ⟨congrArg (cons []) alike.declarations, congrArg (cons []) alike.types⟩

end Alike

namespace Uniform

variable {part next : Analysis → Analysis}

/-- What was found before stays, and what a part finds comes behind it. -/
theorem diagnostics_eq (uniform : Uniform part) (analysis : Analysis) :
    (part analysis).diagnostics = analysis.diagnostics ++ found part analysis := by
  obtain ⟨-, findings, added, -⟩ := uniform analysis analysis (Alike.refl analysis)
  rw [found, added, drop_left]

theorem found_eq (uniform : Uniform part) (alike : one.Alike two) :
    found part one = found part two := by
  obtain ⟨-, findings, first, second⟩ := uniform one two alike
  rw [found, found, first, second, drop_left, drop_left]

theorem id : Uniform id := fun _ _ alike => ⟨alike, [], by simp⟩

/-- Parts in turn. -/
theorem comp (first : Uniform part) (second : Uniform next) :
    Uniform fun analysis => next (part analysis) := by
  intro one two alike
  obtain ⟨between, findings, added, added'⟩ := first one two alike
  obtain ⟨after, further, addedNext, addedNext'⟩ := second _ _ between
  refine ⟨after, findings ++ further, ?_, ?_⟩
  · rw [addedNext, added, append_assoc]
  · rw [addedNext', added', append_assoc]

/-- Parts for the elements of a list. -/
theorem foldl {α : Type} {step : Analysis → α → Analysis} {elements : List α}
    (uniform : ∀ element ∈ elements, Uniform fun analysis => step analysis element) :
    Uniform fun analysis => elements.foldl step analysis := by
  induction elements with
  | nil => exact id
  | cons element rest ih =>
    obtain ⟨here, later⟩ := forall_mem_cons.mp uniform
    exact here.comp (ih later)

/-- A part with a scope of its own. -/
theorem within (uniform : Uniform part) : Uniform fun analysis => analysis.within part := by
  intro one two alike
  obtain ⟨⟨declarations, types⟩, findings, added, added'⟩ := uniform _ _ alike.enter
  refine ⟨?_, findings, added, added'⟩
  -- the scope is closed in both, or there is none to close in either
  constructor
  · rw [scopes_within, scopes_within, Scopes.exit, Scopes.exit, declarations]
    split
    · exact declarations
    · rfl
  · rw [scopes_within, scopes_within, Scopes.exit, Scopes.exit, declarations]
    split
    · exact types
    · exact congrArg tail types

end Uniform

theorem uniform_reportAll {findings : Analysis → List Diagnostic}
    (same : ∀ one two : Analysis, one.Alike two → findings one = findings two) :
    Uniform fun analysis => analysis.reportAll (findings analysis) :=
  fun one two alike => ⟨⟨alike.declarations, alike.types⟩, findings one, rfl,
    by rw [diagnostics_reportAll, same one two alike]⟩

/-- A declaration depends on the scopes only. -/
theorem uniform_declare (name : String) (role : Role) (position : Position) (duplicate : Finding) :
    Uniform fun analysis => analysis.declare name role position duplicate := by
  intro one two alike
  simp only [declare, Scopes.declare?, alike.declarations]
  cases found : two.scopes.declarations with
  | nil => exact ⟨⟨alike.declarations, alike.types⟩, [⟨duplicate, position⟩], rfl, rfl⟩
  | cons scope outer =>
    by_cases taken : (scope.lookup name).isSome = true
    · simp only [if_pos taken]
      exact ⟨⟨alike.declarations, alike.types⟩, [⟨duplicate, position⟩], rfl, rfl⟩
    · simp only [if_neg taken]
      exact ⟨⟨rfl, alike.types⟩, [], (append_nil _).symm, (append_nil _).symm⟩

/-- Recording a type depends on the scopes only. -/
theorem uniform_recordType? (path : List String) (name : String) {type? : Analysis → Option String}
    (same : ∀ one two : Analysis, one.Alike two → type? one = type? two) :
    Uniform fun analysis => analysis.recordType? path name (type? analysis) := by
  intro one two alike
  dsimp only
  rw [same one two alike]
  refine ⟨?_, [], by simp, by simp⟩
  cases type? two with
  | none => exact alike
  | some type =>
    unfold recordType? recordType Scopes.setType
    rw [alike.types]
    cases found : two.scopes.types with
    | nil => exact ⟨alike.declarations, alike.types⟩
    | cons scope outer => exact ⟨alike.declarations, rfl⟩

end Analysis

/-! ## Statements and members -/

/-- What is found about a statement depends on the scopes only. -/
theorem Stmt.findings_congr (place : Place) (stmt : Stmt) (alike : one.Alike two) :
    stmt.findings place one = stmt.findings place two := by
  cases stmt with
  | assign target value position =>
    have assigned (name : String) : one.checkAssigned name value position =
        two.checkAssigned name value position := by
      rw [checkAssigned, alike.typeOf_eq, alike.infer_eq, checkAssigned]
    simp only [findings, targetFindings, alike.knows_eq, assigned]
  | _ => simp only [findings, alike.knows_eq]

/-- Declaring a variable depends on the scopes only. -/
theorem Stmt.uniform_declareIn (place : Place) (stmt : Stmt) :
    Uniform fun analysis => stmt.declareIn place analysis := by
  cases stmt with
  | declare name init position =>
    exact (uniform_declare name .variableRole position (.duplicateVariable name)).comp
      (uniform_recordType? place.path name fun _ _ alike => alike.infer_eq init)
  | _ => exact .id

/-- Analysing statements depends on the scopes only. -/
theorem Stmt.uniform_analyzeBlock (block : List Stmt) :
    ∀ place : Place, Uniform (analyzeBlock place block) := by
  induction block using block_induction with
  | nil => exact fun _ => .id
  | cons stmt rest inBlocks ih =>
    intro place
    have reported := uniform_reportAll fun _ _ alike => stmt.findings_congr place alike
    have blocks : Uniform (analyzeBlocks (stmt.inside place) stmt.blocks) :=
      Uniform.foldl fun block mem => (inBlocks block mem _).within
    have whole := ((reported.comp (stmt.uniform_declareIn place)).comp blocks).comp (ih place)
    simp only [← analyze_eq] at whole
    exact whole

namespace Analysis

variable (program : Program) (decl : ClassDecl)

/-- Analysing the head of a method depends on the scopes only. -/
theorem uniform_visitHead (method : Method) : Uniform (visitHead program decl method) := by
  have param (param : Param) :
      Uniform fun analysis => visitParam (insideMethod program decl method) analysis param := by
    have checked := (uniform_declare param.name .parameterRole param.position
      (.duplicateParameter param.name)).comp
        (uniform_reportAll fun _ _ _ => Eq.refl (param.type.check program))
    exact checked.comp (uniform_recordType? [decl.name, method.name] param.name
      fun _ _ _ => Eq.refl (some param.type.source))
  have params := Uniform.foldl fun (element : Param) (_ : element ∈ method.params) => param element
  exact (params.comp (uniform_reportAll fun _ _ _ =>
    Eq.refl (TypeRef.checkList program method.result.toList))).comp
      (uniform_reportAll fun _ _ _ => Eq.refl (program.checkOverride decl method))

/-- Analysing a member depends on the scopes only. -/
theorem uniform_visitMember (member : Member) :
    Uniform fun analysis => visitMember program decl analysis member := by
  cases member with
  | field field =>
    have visited : Uniform fun analysis =>
        analysis.visit (outsideMethods program decl [decl.name]) field.init :=
      uniform_reportAll fun one two alike => by rw [alike.knows_eq]
    exact visited.comp (uniform_recordType? [decl.name] field.name
      fun _ _ alike => alike.infer_eq field.init)
  | method method =>
    exact ((uniform_visitHead program decl method).comp
      (Stmt.uniform_analyzeBlock method.body (insideMethod program decl method))).within

/-- Checking the base of a class and declaring its members depends on the scopes only. -/
theorem uniform_declareMembers : Uniform fun analysis =>
    decl.members.foldl declareMember (analysis.reportAll (program.checkBase decl)) := by
  have member (member : Member) : Uniform fun analysis => declareMember analysis member := by
    cases member <;> exact uniform_declare _ _ _ _
  have based := uniform_reportAll fun _ _ _ => Eq.refl (program.checkBase decl)
  exact based.comp
    (Uniform.foldl fun (element : Member) (_ : element ∈ decl.members) => member element)

theorem uniform_openClass : Uniform (openClass program decl) := by
  have opened : Uniform fun analysis => analysis.enter :=
    fun one two alike => ⟨alike.enter, [], by simp⟩
  exact opened.comp (uniform_declareMembers program decl)

/-- Analyse the statements run for a new object. -/
def visitInit (analysis : Analysis) : Analysis :=
  analysis.within (Stmt.analyzeBlock (outsideMethods program decl [decl.name, "this"]) decl.init)

/-- Analysing the statements run for a new object depends on the scopes only. -/
theorem uniform_visitInit : Uniform (visitInit program decl) :=
  (Stmt.uniform_analyzeBlock decl.init _).within

theorem uniform_visitClass : Uniform fun analysis => visitClass program analysis decl := by
  have members := Uniform.foldl fun (member : Member) (_ : member ∈ decl.members) =>
    uniform_visitMember program decl member
  have whole := ((uniform_declareMembers program decl).comp members).comp (uniform_visitInit program decl)
  exact whole.within

end Analysis

/-! ## Findings by parts -/

/-- The diagnostics of a class by its parts. -/
structure ClassFindings where
  /-- What is found about its base and the names of its members. -/
  heading : List Diagnostic
  /-- What is found in each of its members. -/
  members : List (List Diagnostic)
  /-- What is found in the statements run for a new object. -/
  init : List Diagnostic

/-- The diagnostics of a class in order. -/
def ClassFindings.all (findings : ClassFindings) : List Diagnostic :=
  findings.heading ++ findings.members.flatten ++ findings.init

/-- The diagnostics of a program by its parts. -/
structure ProgramFindings where
  /-- What is found about the names of its classes. -/
  names : List Diagnostic
  /-- What is found in each of its classes. -/
  classes : List ClassFindings

/-- The diagnostics of a program in order. -/
def ProgramFindings.all (findings : ProgramFindings) : List Diagnostic :=
  findings.names ++ findings.classes.flatMap ClassFindings.all

namespace Analysis

variable {α β : Type}

/-- What is observed at each element of a list, while an analysis steps through the list. -/
def along (step : Analysis → α → Analysis) (observe : Analysis → α → β) :
    List α → Analysis → List β
  | [], _ => []
  | element :: rest, analysis =>
    observe analysis element :: along step observe rest (step analysis element)

/-- The diagnostics that a step adds for an element. -/
def foundAt (step : Analysis → α → Analysis) (analysis : Analysis) (element : α) :
    List Diagnostic :=
  found (fun analysis => step analysis element) analysis

variable {step : Analysis → α → Analysis} {observe : Analysis → α → β}

@[simp] theorem length_along (elements : List α) (analysis : Analysis) :
    (along step observe elements analysis).length = elements.length := by
  induction elements generalizing analysis with
  | nil => rfl
  | cons element rest ih => simp [along, ih]

/-- What is observed in the second part of a list is observed behind the first part. -/
theorem along_append (first second : List α) (analysis : Analysis) :
    along step observe (first ++ second) analysis =
      along step observe first analysis ++ along step observe second (first.foldl step analysis) := by
  induction first generalizing analysis with
  | nil => rfl
  | cons element rest ih => simp [along, ih]

/-- What is observed wherever an invariant holds. -/
theorem forall_mem_along (invariant : Analysis → Prop) {good : β → Prop}
    (kept : ∀ analysis element, invariant analysis → invariant (step analysis element))
    (observed : ∀ analysis element, invariant analysis → good (observe analysis element))
    (elements : List α) {analysis : Analysis} (holds : invariant analysis) :
    ∀ observation ∈ along step observe elements analysis, good observation := by
  induction elements generalizing analysis with
  | nil => exact forall_mem_nil _
  | cons element rest ih =>
    exact forall_mem_cons.mpr
      ⟨observed analysis element holds, ih (kept analysis element holds)⟩

/-- Diagnostics that are observed at each step are all of them. -/
theorem diagnostics_foldl (all : β → List Diagnostic)
    (observed : ∀ analysis element, (step analysis element).diagnostics =
      analysis.diagnostics ++ all (observe analysis element))
    (elements : List α) (analysis : Analysis) :
    (elements.foldl step analysis).diagnostics =
      analysis.diagnostics ++ (along step observe elements analysis).flatMap all := by
  induction elements generalizing analysis with
  | nil => exact (append_nil _).symm
  | cons element rest ih => simp [along, ih, observed]

/-- Observations in the same scopes are the same. -/
theorem along_congr (uniform : ∀ element, Uniform fun analysis => step analysis element)
    (same : ∀ element one two, Alike one two → observe one element = observe two element)
    (elements : List α) (alike : one.Alike two) :
    along step observe elements one = along step observe elements two := by
  induction elements generalizing one two with
  | nil => rfl
  | cons element rest ih =>
    rw [along, along, same element one two alike, ih (uniform element one two alike).1]

end Analysis

/-- The diagnostics of a class by its parts, from an analysis that comes to the class. -/
def ClassDecl.findings (program : Program) (analysis : Analysis) (decl : ClassDecl) :
    ClassFindings :=
  let opened := analysis.openClass program decl
  { heading := found (openClass program decl) analysis
    members :=
      along (visitMember program decl) (foundAt (visitMember program decl)) decl.members opened
    init :=
      found (visitInit program decl) (decl.members.foldl (visitMember program decl) opened) }

/-- The diagnostics of a program by its parts. -/
def Program.findings (program : Program) : ProgramFindings :=
  { names := program.declared.diagnostics
    classes :=
      along (visitClass program) (ClassDecl.findings program) program.classes program.declared }

/-- The diagnostics of the parts of a class are all that its analysis adds. -/
theorem ClassDecl.diagnostics_visitClass (program : Program) (analysis : Analysis)
    (decl : ClassDecl) :
    (visitClass program analysis decl).diagnostics =
      analysis.diagnostics ++ (decl.findings program analysis).all := by
  have members : (decl.members.foldl (visitMember program decl) _).diagnostics = _ :=
    diagnostics_foldl id (fun analysis member =>
      (uniform_visitMember program decl member).diagnostics_eq analysis)
      decl.members (analysis.openClass program decl)
  have init := (uniform_visitInit program decl).diagnostics_eq
    (decl.members.foldl (visitMember program decl) (analysis.openClass program decl))
  have opened := (uniform_openClass program decl).diagnostics_eq analysis
  calc (visitClass program analysis decl).diagnostics
      = _ := init
    _ = analysis.diagnostics ++ (decl.findings program analysis).all := by
        rw [members, opened, flatMap_id]
        simp only [ClassFindings.all, findings, append_assoc]
        rfl

/-- What is found in a class depends on the scopes only. -/
theorem ClassDecl.findings_alike (program : Program) (decl : ClassDecl) (alike : one.Alike two) :
    decl.findings program one = decl.findings program two := by
  have opened := (uniform_openClass program decl one two alike).1
  have uniform := uniform_visitMember program decl
  have members := along_congr uniform
    (fun member _ _ alike => (uniform member).found_eq alike) decl.members opened
  have visited := Uniform.foldl fun member (_ : member ∈ decl.members) => uniform member
  have init := (uniform_visitInit program decl).found_eq (visited _ _ opened).1
  unfold findings
  rw [(uniform_openClass program decl).found_eq alike]
  exact congrArg₂ (ClassFindings.mk _) members init

/-- The diagnostics of the parts of a program are all that its analysis finds. -/
theorem Program.findings_all (program : Program) :
    program.findings.all = program.analyze.diagnostics :=
  (diagnostics_foldl _ (ClassDecl.diagnostics_visitClass program) program.classes
    program.declared).symm

/-! ## Programs of one outline -/

section Congruence

variable {program program' : Program} (programs : program.outline = program'.outline)

include programs

/-- The statements run for a new object are analysed in the same way in all programs and classes of one
outline. -/
theorem Analysis.visitInit_congr {decl decl' : ClassDecl} (decls : decl.outline = decl'.outline)
    (init : decl.init = decl'.init) : visitInit program decl = visitInit program' decl' := by
  have names : decl.outline.name = decl'.outline.name := congrArg ClassDecl.name decls
  change decl.name = decl'.name at names
  funext analysis
  unfold visitInit
  rw [analyzeInit_congr programs decls, init, names]

/-- A class is analysed in the same way in all programs of one outline. -/
theorem Analysis.visitClass_congr : visitClass program = visitClass program' := by
  funext analysis decl
  have init := visitInit_congr programs (Eq.refl decl.outline) rfl
  calc visitClass program analysis decl
      = analysis.within fun _ => visitInit program decl
          (decl.members.foldl (visitMember program decl) (analysis.openClass program decl)) := rfl
    _ = analysis.within fun _ => visitInit program' decl
          (decl.members.foldl (visitMember program' decl) (analysis.openClass program' decl)) := by
        rw [init, visitMember_congr programs rfl, openClass_congr programs rfl]
    _ = visitClass program' analysis decl := rfl

theorem ClassDecl.findings_congr : findings program = findings program' := by
  funext analysis decl
  unfold findings
  rw [visitInit_congr programs (Eq.refl decl.outline) rfl,
    visitMember_congr programs rfl, openClass_congr programs rfl]

/-- Classes are declared in the same way in all programs of one outline. -/
theorem Program.declared_congr : program.declared = program'.declared := by
  rw [← program.declared_outline, programs, program'.declared_outline]

end Congruence

/-! ## Another body for a method -/

/-- A method of a program, with what is around it. -/
structure Program.MethodSite (program : Program) where
  /-- The classes before its own. -/
  before : List ClassDecl
  decl : ClassDecl
  /-- The classes behind its own. -/
  after : List ClassDecl
  /-- The members of its class before it. -/
  first : List Member
  method : Method
  /-- The members of its class behind it. -/
  later : List Member
  classes : program.classes = before ++ decl :: after
  members : decl.members = first ++ .method method :: later

/-- The diagnostics of a program around those of one method. -/
structure FindingsAround where
  /-- What is found about the names of classes. -/
  names : List Diagnostic
  /-- What is found in the classes before. -/
  earlier : List ClassFindings
  /-- What is found about the base and the names of members of the class. -/
  heading : List Diagnostic
  /-- What is found in the members before. -/
  others : List (List Diagnostic)
  /-- What is found in the members behind. -/
  more : List (List Diagnostic)
  /-- What is found in the statements run for a new object. -/
  init : List Diagnostic
  /-- What is found in the classes behind. -/
  further : List ClassFindings

namespace FindingsAround

variable (around : FindingsAround) (own : List Diagnostic)

/-- The diagnostics of a program, with those of the method. -/
def plug : ProgramFindings :=
  { names := around.names
    classes :=
      around.earlier ++ ⟨around.heading, around.others ++ own :: around.more, around.init⟩ ::
        around.further }

/-- All diagnostics before those of the method. -/
def front : List Diagnostic :=
  around.names ++ around.earlier.flatMap ClassFindings.all ++ around.heading ++
    around.others.flatten

/-- All diagnostics behind those of the method. -/
def back : List Diagnostic :=
  around.more.flatten ++ around.init ++ around.further.flatMap ClassFindings.all

theorem all_plug : (around.plug own).all = around.front ++ own ++ around.back := by
  simp [plug, front, back, ProgramFindings.all, ClassFindings.all]

end FindingsAround

namespace Program.MethodSite

variable {program : Program} (site : program.MethodSite) (body : List Stmt)

/-- The class with another body for the method. -/
def replaceIn : ClassDecl :=
  { site.decl with
    members := site.first ++ .method { site.method with body := body } :: site.later }

/-- The program with another body for the method. -/
def replace : Program := ⟨site.before ++ site.replaceIn body :: site.after⟩

/-- The method in the program with another body for it. -/
def replaced : (site.replace body).MethodSite :=
  { site with
    decl := site.replaceIn body
    method := { site.method with body := body }
    classes := rfl
    members := rfl }

theorem outline_replaceIn : (site.replaceIn body).outline = site.decl.outline := by
  simp only [replaceIn, ClassDecl.outline, site.members, map_append, map_cons]
  rfl

theorem outline_replace : (site.replace body).outline = program.outline := by
  simp only [replace, outline, site.classes, map_append, map_cons, site.outline_replaceIn]

theorem replace_body : site.replace site.method.body = program := by
  have same : site.replaceIn site.method.body = site.decl := by
    rw [replaceIn, ← site.members]
  rw [replace, same, ← site.classes]

/-- The analysis when it comes to the class. -/
def atClass : Analysis := site.before.foldl (visitClass program) program.declared

/-- The analysis when it comes to the method. -/
def atMethod : Analysis :=
  site.first.foldl (visitMember program site.decl) (site.atClass.openClass program site.decl)

/-- What is found around the method. What comes behind it is analysed as if the method were not
there. -/
def around : FindingsAround :=
  let visitMember := visitMember program site.decl
  let visitClass := visitClass program
  { names := program.declared.diagnostics
    earlier := along visitClass (ClassDecl.findings program) site.before program.declared
    heading := found (openClass program site.decl) site.atClass
    others :=
      along visitMember (foundAt visitMember) site.first (site.atClass.openClass program site.decl)
    more := along visitMember (foundAt visitMember) site.later site.atMethod
    init :=
      found (visitInit program site.decl) (site.later.foldl visitMember site.atMethod)
    further := along visitClass (ClassDecl.findings program) site.after site.atClass }

/-- What is found in the method. -/
def own : List Diagnostic :=
  foundAt (visitMember program site.decl) site.atMethod (.method site.method)

/-- What is found in the class of the method. -/
theorem findings_decl :
    site.decl.findings program site.atClass =
      ⟨site.around.heading, site.around.others ++ site.own :: site.around.more, site.around.init⟩ := by
  have uniform := uniform_visitMember program site.decl
  -- the scopes behind the method are those before it
  have alike := alike_visitMethod program site.decl site.method site.atMethod
  have more := along_congr uniform
    (fun member _ _ alike => (uniform member).found_eq alike) site.later alike
  have later := (Uniform.foldl fun member (_ : member ∈ site.later) => uniform member)
  have init := (uniform_visitInit program site.decl).found_eq (later _ _ alike).1
  -- so the rest of the class is analysed as if the method were not there
  rw [ClassDecl.findings, site.members, along_append, along, foldl_append, foldl_cons]
  exact congrArg₂ (fun more init => (⟨_, _ ++ _ :: more, init⟩ : ClassFindings)) more init

/-- What is found in the program. -/
theorem findings_eq : program.findings = site.around.plug site.own := by
  have further := along_congr
    (fun decl => uniform_visitClass program decl)
    (fun decl _ _ alike => ClassDecl.findings_alike program decl alike) site.after
    (alike_visitClass program site.atClass site.decl)
  rw [findings, FindingsAround.plug, site.classes, along_append, along]
  exact congrArg₂ (fun decl further => (⟨_, _ ++ decl :: further⟩ : ProgramFindings))
    site.findings_decl further

/-- Another body changes nothing that is found around the method. -/
theorem around_replaced : (site.replaced body).around = site.around := by
  -- each part of the analysis around the method reads the outlines only
  have programs := site.outline_replace body
  have decls := site.outline_replaceIn body
  have visitMember : visitMember (site.replace body) (site.replaced body).decl = _ :=
    visitMember_congr programs decls
  have openClass : openClass (site.replace body) (site.replaced body).decl = _ :=
    openClass_congr programs decls
  have visitInit : visitInit (site.replace body) (site.replaced body).decl = _ :=
    visitInit_congr programs decls rfl
  have declared := declared_congr programs
  unfold around atMethod atClass
  rw [visitMember, openClass, visitInit, declared, visitClass_congr programs,
    ClassDecl.findings_congr programs]
  rfl

end Program.MethodSite

/-- Methods are analysed by themselves, and every scope that is opened is closed. The diagnostics of a
method stand together, and another body changes none of those around them. One scope is opened for the
program, two for each class, one for each method and one for each block; a program with classes has
three of them open at once, and one more for each block around another. -/
theorem Program.analyze_replaceBody (program : Program) :
    (∀ site : program.MethodSite, ∃ (around : FindingsAround) (own : List Stmt → List Diagnostic),
      around.earlier.length = site.before.length ∧ around.others.length = site.first.length ∧
        program.findings = around.plug (own site.method.body) ∧
        program.analyze.diagnostics = around.front ++ own site.method.body ++ around.back ∧
        ∀ body : List Stmt, (site.replace body).findings = around.plug (own body) ∧
          (site.replace body).analyze.diagnostics = around.front ++ own body ++ around.back) ∧
      program.analyze.scopes.declarations = [] ∧ program.analyze.scopes.types = [] ∧
      program.analyze.scopes.entered = 1 + (program.classes.map fun decl =>
        2 + decl.methods.length + (decl.bodies.map Stmt.innerCount).sum).sum ∧
      program.analyze.scopes.exited = program.analyze.scopes.entered ∧
      program.analyze.scopes.maxDepth =
        if program.classes.isEmpty then 1
        else 3 + deepest ((program.classes.flatMap ClassDecl.bodies).map Stmt.innerDepth) := by
  obtain ⟨names, types, entered, exited, depth⟩ := program.scopes_analyze
  refine ⟨fun site => ?_, names, types, entered, exited.trans entered.symm, ?_⟩
  · have found (body : List Stmt) :
        (site.replace body).findings = site.around.plug (site.replaced body).own := by
      rw [(site.replaced body).findings_eq, site.around_replaced]
    have reported (body : List Stmt) : (site.replace body).analyze.diagnostics =
        site.around.front ++ (site.replaced body).own ++ site.around.back := by
      rw [← findings_all, found, FindingsAround.all_plug]
    refine ⟨site.around, fun body => (site.replaced body).own, length_along _ _,
      length_along _ _, ?_, ?_, fun body => ⟨found body, reported body⟩⟩
    · simpa only [site.replace_body] using found site.method.body
    · simpa only [site.replace_body] using reported site.method.body
  · rw [depth]
    split
    · next empty => rw [List.isEmpty_iff.mp empty, List.map_nil, deepest_nil]
    · next nonempty =>
        rw [deepest_blockDepth (by simpa using nonempty)]
        omega

/-- An exit outside of loops in the second of three methods is reported between those in the first and
the third. -/
theorem Program.analyze_replaceBody_leave :
    ∃ (around : FindingsAround) (own : List Stmt → List Diagnostic),
      around.others.length = 1 ∧
        around.front ++ own [] ++ around.back =
          [⟨.breakOutsideLoop, ⟨2, 1⟩⟩, ⟨.breakOutsideLoop, ⟨4, 1⟩⟩] ∧
        around.front ++ own [.leave ⟨3, 1⟩] ++ around.back =
          [⟨.breakOutsideLoop, ⟨2, 1⟩⟩, ⟨.breakOutsideLoop, ⟨3, 1⟩⟩,
            ⟨.breakOutsideLoop, ⟨4, 1⟩⟩] := by
  let method (name : String) (body : List Stmt) : Method := ⟨name, [], none, body, ⟨1, 1⟩⟩
  let members : List Member := [.method (method "f" [.leave ⟨2, 1⟩]), .method (method "g" []),
    .method (method "h" [.leave ⟨4, 1⟩])]
  let program : Program := ⟨[⟨"A", none, [], members, ⟨1, 1⟩⟩]⟩
  let site : program.MethodSite :=
    { before := []
      decl := ⟨"A", none, [], members, ⟨1, 1⟩⟩
      after := []
      first := [.method (method "f" [.leave ⟨2, 1⟩])]
      method := method "g" []
      later := [.method (method "h" [.leave ⟨4, 1⟩])]
      classes := rfl
      members := rfl }
  obtain ⟨around, own, -, others, -, reported, replaced⟩ := program.analyze_replaceBody.1 site
  refine ⟨around, own, others, reported.symm.trans ?_, (replaced [.leave ⟨3, 1⟩]).2.symm.trans ?_⟩
  · decide +kernel
  · decide +kernel

end ClassLang
