import ClassLang.Proofs.Analysis.Steps

/-! # Outlines of programs

The outline of a program has its classes with their bases, fields and methods, but no statements. What
the analysis asks of the program around a statement is read off the outline: which names are
inherited, which types and bases there are, and what a method overrides. So statements are analysed
in the same way in all programs of one outline. -/

namespace ClassLang

open List ClassDecl TypeRef

/-- A method without its statements. -/
def Method.outline (method : Method) : Method := { method with body := [] }

/-- A member without statements. -/
def Member.outline : Member → Member
  | .field decl => .field decl
  | .method decl => .method decl.outline

/-- A class without statements. -/
def ClassDecl.outline (decl : ClassDecl) : ClassDecl :=
  { decl with init := [], members := decl.members.map Member.outline }

/-- A program without statements. -/
def Program.outline (program : Program) : Program := ⟨program.classes.map ClassDecl.outline⟩

/-! ## Members and ancestors -/

namespace ClassDecl

variable (decl : ClassDecl)

@[simp] theorem fields_outline : decl.outline.fields = decl.fields := by
  simp only [fields, outline, filterMap_map]
  refine congrArg (filterMap · decl.members) (funext fun member => ?_)
  cases member <;> rfl

@[simp] theorem methods_outline : decl.outline.methods = decl.methods.map Method.outline := by
  simp only [methods, outline, filterMap_map, map_filterMap]
  refine congrArg (filterMap · decl.members) (funext fun member => ?_)
  cases member <;> rfl

@[simp] theorem field?_outline (name : String) : decl.outline.field? name = decl.field? name := by
  simp [field?]

@[simp] theorem method?_outline (name : String) :
    decl.outline.method? name = (decl.method? name).map Method.outline := by
  simp only [method?, methods_outline, find?_map]
  rfl

end ClassDecl

theorem withoutName_outline (pool : List ClassDecl) (name : String) :
    withoutName (pool.map outline) name =
      (withoutName pool name).map outline := by
  simp only [withoutName, filter_map]
  rfl

theorem find?_outline (pool : List ClassDecl) (name : String) :
    (pool.map outline).find? (fun decl => decl.name = name) =
      (pool.find? fun decl => decl.name = name).map outline := by
  rw [find?_map]
  rfl

/-- Bases lead through the outlines of the same classes. -/
theorem ancestorsIn_outline (pool : List ClassDecl) (base : Option String) :
    ancestorsIn (pool.map outline) base =
      (ancestorsIn pool base).map outline := by
  fun_induction ancestorsIn pool base with
  | case1 pool => rw [ancestorsIn, map_nil]
  | case2 pool name missing =>
    have missing' : (pool.map outline).find? (fun decl => decl.name = name) = none := by
      rw [find?_outline, missing]
      rfl
    rw [ancestorsIn]
    split
    · rfl
    · next found =>
        rw [missing'] at found
        cases found
  | case3 pool name next found ih =>
    have found' : (pool.map outline).find? (fun decl => decl.name = name) =
        some next.outline := by
      rw [find?_outline, found]
      rfl
    rw [ancestorsIn]
    split
    · next missing =>
        rw [found'] at missing
        cases missing
    · next other same =>
        rw [found'] at same
        cases same
        rw [withoutName_outline, map_cons]
        exact congrArg _ ih

namespace Program

variable (program : Program) (decl : ClassDecl)

@[simp] theorem class?_outline (name : String) :
    program.outline.class? name = (program.class? name).map ClassDecl.outline :=
  find?_outline program.classes name

@[simp] theorem ancestors_outline :
    program.outline.ancestors decl.outline = (program.ancestors decl).map ClassDecl.outline := by
  unfold ancestors
  exact (congrArg (ancestorsIn · decl.base) (withoutName_outline program.classes decl.name)).trans
    (ancestorsIn_outline _ _)

@[simp] theorem inherits_outline (name : String) :
    program.outline.inherits decl.outline name = program.inherits decl name := by
  simp only [inherits, ancestors_outline, any_map]
  refine congrArg (any (program.ancestors decl)) (funext fun ancestor => ?_)
  simp

theorem followBases_outline (target : String) (visited : List String) (base : Option String) :
    program.outline.followBases target visited base = program.followBases target visited base := by
  fun_induction followBases program target visited base with
  | case1 => rw [followBases]
  | case2 visited => rw [followBases, if_pos rfl]
  | case3 visited name different seen => rw [followBases, if_neg different, if_pos seen]
  | case4 visited name different new ih =>
    rw [followBases, if_neg different, if_neg new, ← ih, class?_outline, Option.bind_map]
    rfl

/-- What is wrong with a base is seen in the outline. -/
@[simp] theorem checkBase_outline :
    program.outline.checkBase decl.outline = program.checkBase decl := by
  have same : program.outline.inCycle decl.outline = program.inCycle decl :=
    congrArg Prod.fst (program.followBases_outline decl.name [] decl.base)
  unfold checkBase
  rw [same, show decl.outline.base = decl.base from rfl]
  cases decl.base with
  | none => rfl
  | some base =>
    simp only [class?_outline, Option.isNone_map]
    rfl

/-- What is wrong with a method that overrides another is seen in the outline. -/
@[simp] theorem checkOverride_outline (method : Method) :
    program.outline.checkOverride decl.outline method = program.checkOverride decl method := by
  have overridden : program.outline.overridden? decl.outline method.name =
      (program.overridden? decl method.name).map Method.outline := by
    simp only [overridden?, ancestors_outline, findSome?_map]
    induction program.ancestors decl with
    | nil => rfl
    | cons ancestor rest ih =>
      simp only [findSome?_cons, Function.comp_apply, method?_outline]
      cases ancestor.method? method.name with
      | none => exact ih
      | some method => rfl
  unfold checkOverride
  rw [overridden]
  cases program.overridden? decl method.name <;> rfl

end Program

mutual

theorem TypeRef.check_outline (program : Program) (type : TypeRef) :
    type.check program.outline = type.check program := by
  obtain ⟨name, arguments, position⟩ := type
  rw [check, check, checkList_outline program arguments]
  simp only [Program.class?_outline, Option.isSome_map]

theorem TypeRef.checkList_outline (program : Program) (types : List TypeRef) :
    checkList program.outline types = checkList program types := by
  cases types with
  | nil => rfl
  | cons type rest =>
    rw [checkList, checkList, type.check_outline,
      checkList_outline program rest]

end

/-! ## Statements in an outline -/

/-- A place in the outline of a program. -/
def Place.outline (place : Place) : Place :=
  { place with program := place.program.outline, decl := place.decl.outline }

@[simp] theorem Place.knows_outline (place : Place) (scopes : Scopes) (name : String) :
    place.outline.knows scopes name = place.knows scopes name := by
  simp only [knows, outline, Program.inherits_outline]

namespace Stmt

theorem findings_outline (place : Place) (stmt : Stmt) (analysis : Analysis) :
    stmt.findings place.outline analysis = stmt.findings place analysis := by
  have known : place.outline.knows analysis.scopes = place.knows analysis.scopes :=
    funext fun name => place.knows_outline analysis.scopes name
  cases stmt <;> simp only [findings, targetFindings, known] <;> rfl

/-- Blocks in a statement stand in the outline as the statement does. -/
theorem inside_outline (place : Place) (stmt : Stmt) :
    stmt.inside place.outline = (stmt.inside place).outline := by
  cases stmt <;> rfl

/-- A variable is declared in the outline as it is in the program. -/
theorem declareIn_outline (place : Place) (stmt : Stmt) (analysis : Analysis) :
    stmt.declareIn place.outline analysis = stmt.declareIn place analysis := by
  cases stmt <;> rfl

/-- Statements are analysed in the outline as they are in the program. -/
theorem analyzeBlock_outline (block : List Stmt) : ∀ (place : Place) (analysis : Analysis),
    analyzeBlock place.outline block analysis = analyzeBlock place block analysis := by
  induction block using block_induction with
  | nil => exact fun _ _ => rfl
  | cons stmt rest inBlocks ih =>
    intro place analysis
    have blocks : ∀ blocks : List (List Stmt), (∀ block ∈ blocks, ∀ place analysis,
        analyzeBlock place.outline block analysis = analyzeBlock place block analysis) →
        ∀ (place : Place) (analysis : Analysis),
          analyzeBlocks place.outline blocks analysis = analyzeBlocks place blocks analysis := by
      intro blocks
      induction blocks with
      | nil => exact fun _ _ _ => rfl
      | cons block more ih =>
        intro same place analysis
        obtain ⟨here, later⟩ := forall_mem_cons.mp same
        have part : analyzeBlock place.outline block = analyzeBlock place block :=
          funext fun analysis => here place analysis
        rw [analyzeBlocks_cons, analyzeBlocks_cons, part, ih later]
    rw [analyzeBlock, analyzeBlock, analyze_eq, analyze_eq,
      stmt.findings_outline, stmt.declareIn_outline, stmt.inside_outline, blocks _ inBlocks, ih]

end Stmt

/-! ## Members and classes in an outline -/

namespace Analysis

variable (program : Program) (decl : ClassDecl)

/-- The head of a method is analysed in the outline as it is in the program. -/
theorem visitHead_outline (method : Method) (analysis : Analysis) :
    analysis.visitHead program.outline decl.outline method =
      analysis.visitHead program decl method := by
  have param : visitParam (insideMethod program.outline decl.outline method) =
      visitParam (insideMethod program decl method) := by
    funext analysis param
    unfold visitParam
    simp only [insideMethod, check_outline]
    rfl
  simp only [visitHead, param, Program.checkOverride_outline, checkList_outline]

/-- A member is analysed in the outline as it is in the program. -/
theorem visitMember_outline (analysis : Analysis) (member : Member) :
    visitMember program.outline decl.outline analysis member =
      visitMember program decl analysis member := by
  cases member with
  | field field =>
    have visited : analysis.visit (outsideMethods program.outline decl.outline [decl.outline.name])
        field.init = analysis.visit (outsideMethods program decl [decl.name]) field.init := by
      unfold visit
      refine congrArg (fun known => analysis.reportAll (field.init.undeclared known)) ?_
      exact funext fun name => Place.knows_outline (outsideMethods program decl [decl.name]) _ name
    unfold visitMember
    dsimp only
    rw [visited]
    rfl
  | method method =>
    rw [visitMember, visitMember, visitMethod_eq, visitMethod_eq]
    refine congrArg (fun part => analysis.within part) (funext fun analysis => ?_)
    rw [visitHead_outline]
    exact Stmt.analyzeBlock_outline method.body (insideMethod program decl method) _

/-- A class is opened in the outline as it is in the program. -/
theorem openClass_outline (analysis : Analysis) :
    analysis.openClass program.outline decl.outline = analysis.openClass program decl := by
  have member : ∀ analysis member, declareMember analysis member.outline =
      declareMember analysis member := by
    intro analysis member
    cases member <;> rfl
  rw [openClass, openClass, Program.checkBase_outline, outline, foldl_map]
  simp only [member]

variable {program decl} {program' : Program} {decl' : ClassDecl}

variable (programs : program.outline = program'.outline) (decls : decl.outline = decl'.outline)

include programs decls

/-- A member is analysed in the same way in all programs and classes of one outline. -/
theorem visitMember_congr : visitMember program decl = visitMember program' decl' := by
  funext analysis member
  rw [← visitMember_outline, programs, decls, visitMember_outline]

/-- A class is opened in the same way in all programs of one outline. -/
theorem openClass_congr : openClass program decl = openClass program' decl' := by
  funext analysis
  rw [← openClass_outline, programs, decls, openClass_outline]

/-- Statements run for a new object are analysed in the same way in all programs of one outline. -/
theorem analyzeInit_congr (path : List String) (block : List Stmt) :
    Stmt.analyzeBlock (outsideMethods program decl path) block =
      Stmt.analyzeBlock (outsideMethods program' decl' path) block := by
  have places : (outsideMethods program decl path).outline =
      (outsideMethods program' decl' path).outline := by
    simp only [Place.outline, outsideMethods, programs, decls]
  funext analysis
  rw [← Stmt.analyzeBlock_outline, places, Stmt.analyzeBlock_outline]

end Analysis

/-- The classes of a program are declared as those of its outline. -/
theorem Program.declared_outline (program : Program) : program.outline.declared = program.declared := by
  rw [Program.declared, Program.declared, Program.outline, foldl_map]
  rfl

end ClassLang
