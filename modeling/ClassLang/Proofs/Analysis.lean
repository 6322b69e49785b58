import ClassLang.Analysis
import ClassLang.Proofs.Resolution

/-! # Course of an analysis

An analysis never takes a diagnostic back, and adds names to the innermost scope only. So a part with
a scope of its own leaves the declarations around it as they are, and whatever is visited on the way
to a clean result was found clean.

`Stmt.blockVisits` lists the expressions that the analysis of statements visits, each with the scopes
that are open then. -/

namespace ClassLang

open List Stmt Analysis

variable {adds : String × Declaration → Prop} {position : Position} {place : Place} {name : String}
  {α : Type}

/-! ## Steps of an analysis -/

/-- Names added to the innermost of some scopes. -/
def addInnermost {α : Type} (new : List α) : List (List α) → List (List α)
  | [] => []
  | scope :: outer => (new ++ scope) :: outer

theorem addInnermost_append (new newer : List α) (scopes : List (List α)) :
    addInnermost (newer ++ new) scopes = addInnermost newer (addInnermost new scopes) := by
  cases scopes with
  | nil => rfl
  | cons scope outer => exact congrArg (· :: outer) (append_assoc ..)

@[simp] theorem addInnermost_nil (scopes : List (List α)) : addInnermost [] scopes = scopes := by
  cases scopes <;> rfl

/-- A declaration adds its name to the innermost scope. -/
theorem Scopes.declarations_declare? {scopes after : Scopes} {declaration : Declaration}
    (declared : scopes.declare? name declaration = some after) :
    after.declarations = addInnermost [(name, declaration)] scopes.declarations := by
  unfold declare? at declared
  split at declared
  · cases declared
  · next opened =>
      obtain ⟨-, result⟩ := Option.ite_none_left_eq_some.mp declared
      cases result
      rw [opened]
      rfl

namespace Analysis

/-- Open a scope. -/
def enter (analysis : Analysis) : Analysis := { analysis with scopes := analysis.scopes.enter }

/-- An analysis goes on with the same declarations. -/
structure Keeps (before after : Analysis) : Prop where
  diagnostics : before.diagnostics <+: after.diagnostics
  declarations : after.scopes.declarations = before.scopes.declarations

/-- An analysis goes on and adds declarations of some sort to the innermost scope. -/
structure Grows (adds : String × Declaration → Prop) (before after : Analysis) : Prop where
  diagnostics : before.diagnostics <+: after.diagnostics
  /-- Declarations are added to the innermost scope. -/
  declarations : ∃ new, after.scopes.declarations =
    addInnermost new before.scopes.declarations ∧ ∀ entry ∈ new, adds entry

namespace Keeps

variable {before between after : Analysis}

theorem refl (analysis : Analysis) : analysis.Keeps analysis := ⟨prefix_rfl, rfl⟩

theorem trans (first : before.Keeps between) (second : between.Keeps after) : before.Keeps after :=
  ⟨first.diagnostics.trans second.diagnostics, second.declarations.trans first.declarations⟩

theorem grows (keeps : before.Keeps after) (adds : String × Declaration → Prop) :
    Grows adds before after :=
  ⟨keeps.diagnostics, [], by rw [keeps.declarations, addInnermost_nil], forall_mem_nil _⟩

theorem clean (keeps : before.Keeps after) (clean : after.diagnostics = []) :
    before.diagnostics = [] :=
  prefix_nil.mp (clean ▸ keeps.diagnostics)

end Keeps

namespace Grows

variable {adds : String × Declaration → Prop} {before between after : Analysis}

theorem refl (analysis : Analysis) : Grows adds analysis analysis := (Keeps.refl analysis).grows adds

/-- Steps in turn. -/
theorem trans (first : Grows adds before between) (second : Grows adds between after) :
    Grows adds before after := by
  obtain ⟨new, added, sort⟩ := first.declarations
  obtain ⟨newer, added', sort'⟩ := second.declarations
  refine ⟨first.diagnostics.trans second.diagnostics, newer ++ new, ?_, ?_⟩
  · rw [added', added, addInnermost_append]
  · exact fun entry mem => (mem_append.mp mem).elim (sort' entry) (sort entry)

theorem mono {wider : String × Declaration → Prop} (grows : Grows adds before after)
    (wide : ∀ entry, adds entry → wider entry) : Grows wider before after := by
  obtain ⟨new, added, sort⟩ := grows.declarations
  exact ⟨grows.diagnostics, new, added, fun entry mem => wide entry (sort entry mem)⟩

theorem clean (grows : Grows adds before after) (clean : after.diagnostics = []) :
    before.diagnostics = [] :=
  prefix_nil.mp (clean ▸ grows.diagnostics)

/-- Steps for the elements of a list. -/
theorem foldl {step : Analysis → α → Analysis} {elements : List α}
    (grows : ∀ element ∈ elements, ∀ analysis, Grows adds analysis (step analysis element))
    (analysis : Analysis) : Grows adds analysis (elements.foldl step analysis) := by
  induction elements generalizing analysis with
  | nil => exact refl analysis
  | cons element rest ih =>
    obtain ⟨here, later⟩ := forall_mem_cons.mp grows
    exact (here analysis).trans (ih later (step analysis element))

end Grows

/-- Steps that keep the declarations, for the elements of a list. -/
theorem Keeps.foldl {step : Analysis → α → Analysis}
    (keeps : ∀ analysis element, Keeps analysis (step analysis element)) (elements : List α)
    (analysis : Analysis) : analysis.Keeps (elements.foldl step analysis) :=
  elements.foldlRecOn step (refl analysis) fun _ kept element _ => kept.trans (keeps _ element)

variable (analysis : Analysis)

theorem keeps_reportAll (diagnostics : List Diagnostic) :
    analysis.Keeps (analysis.reportAll diagnostics) :=
  ⟨prefix_append _ _, rfl⟩

theorem keeps_report (finding : Finding) (position : Position) :
    analysis.Keeps (analysis.report finding position) :=
  ⟨prefix_append _ _, rfl⟩

theorem keeps_visit (place : Place) (expr : Expr) : analysis.Keeps (analysis.visit place expr) :=
  analysis.keeps_reportAll _

/-- Recording a type keeps the declarations. -/
theorem keeps_recordType (path : List String) (name type : String) :
    analysis.Keeps (analysis.recordType path name type) := by
  refine ⟨prefix_rfl, ?_⟩
  unfold recordType Scopes.setType
  dsimp only
  split <;> rfl

theorem keeps_recordType? (path : List String) (name : String) (type? : Option String) :
    analysis.Keeps (analysis.recordType? path name type?) := by
  cases type? with
  | none => exact .refl analysis
  | some type => exact analysis.keeps_recordType path name type

/-- A declaration adds at most its name to the innermost scope. -/
theorem grows_declare {role : Role} (sort : adds (name, ⟨role, position⟩)) (duplicate : Finding) :
    Grows adds analysis (analysis.declare name role position duplicate) := by
  unfold declare
  split
  · next declared =>
      exact ⟨prefix_rfl, _, Scopes.declarations_declare? declared, by simpa using sort⟩
  · exact (analysis.keeps_report _ _).grows adds

/-- A clean declaration was clean before. -/
theorem clean_of_declare {analysis : Analysis} {role : Role} {duplicate : Finding}
    (clean : (analysis.declare name role position duplicate).diagnostics = []) :
    analysis.diagnostics = [] :=
  have grows : Grows (fun _ => True) analysis (analysis.declare name role position duplicate) :=
    analysis.grows_declare trivial duplicate
  grows.clean clean

/-- A part with a scope of its own keeps the declarations. -/
theorem keeps_within {part : Analysis → Analysis}
    (grows : Grows adds analysis.enter (part analysis.enter)) :
    analysis.Keeps (analysis.within part) := by
  obtain ⟨diagnostics, new, added, -⟩ := grows
  refine ⟨diagnostics, ?_⟩
  -- the part adds to the scope opened for it, and leaving that scope drops what was added
  have opened : (part analysis.enter).scopes.declarations =
      (new ++ []) :: analysis.scopes.declarations := added
  change (part analysis.enter).scopes.exit.declarations = _
  rw [Scopes.exit, opened]

/-- A part with a scope of its own has a clean result if the whole has. -/
theorem clean_of_within {part : Analysis → Analysis}
    (clean : (analysis.within part).diagnostics = []) : (part analysis.enter).diagnostics = [] :=
  clean

/-- Analysing the declaration of a variable adds at most its name. -/
theorem grows_visitDeclare (place : Place) (init : Expr)
    (sort : adds (name, ⟨.variableRole, position⟩)) :
    Grows adds analysis (analysis.visitDeclare place name init position) :=
  (((analysis.keeps_visit place init).grows adds).trans (grows_declare _ sort _)).trans
    ((keeps_recordType? _ _ _ _).grows adds)

/-- Analysing an assignment keeps the declarations. -/
theorem keeps_visitAssign (place : Place) (target value : Expr) (position : Position) :
    analysis.Keeps (analysis.visitAssign place target value position) := by
  refine (analysis.keeps_visit place value).trans ?_
  unfold visitAssign
  dsimp only
  split
  · exact (keeps_visit _ place _).trans (keeps_reportAll _ _)
  · exact keeps_report _ _ _

end Analysis

mutual

/-- Analysing a statement that declares nothing keeps the declarations. -/
theorem Stmt.keeps_analyze {stmt : Stmt} (undeclared : stmt.declared? = none) (place : Place)
    (analysis : Analysis) : analysis.Keeps (stmt.analyze place analysis) := by
  cases stmt with
  | declare name init => cases undeclared
  | assign target value position => exact analysis.keeps_visitAssign place target value position
  | branch test body alternative =>
    have tested := (analysis.keeps_visit place test).trans
      ((analysis.visit place test).keeps_reportAll (checkBranchTest test))
    have taken := tested.trans (keeps_within _ (grows_analyzeBlock place body _))
    cases alternative with
    | none => exact taken
    | some alternative =>
      have otherwise := grows_analyzeBlock place alternative
      exact taken.trans (keeps_within _ (otherwise _))
  | loop test body position =>
    have tested := (analysis.keeps_visit place test).trans
      ((analysis.visit place test).keeps_reportAll (checkLoop test body position))
    exact tested.trans (keeps_within _ (grows_analyzeBlock _ body _))
  | ret value position =>
    rw [analyze]
    split
    · exact analysis.keeps_visit place value
    · exact (analysis.keeps_report _ position).trans (keeps_visit _ place value)
  | leave position =>
    rw [analyze]
    split
    · exact .refl analysis
    · exact analysis.keeps_report _ position
  | eval value => exact analysis.keeps_visit place value

theorem Stmt.grows_analyzeBlock (place : Place) (block : List Stmt) (analysis : Analysis) :
    Grows (fun entry => entry.2.role = .variableRole) analysis
      (analyzeBlock place block analysis) := by
  cases block with
  | nil => exact .refl analysis
  | cons stmt rest =>
    refine Grows.trans ?_ (grows_analyzeBlock place rest _)
    -- only a declaration adds a name to the scope that is open for the statements
    cases stmt with
    | declare name init => exact analysis.grows_visitDeclare place init rfl
    | _ => exact (keeps_analyze rfl place analysis).grows _

end

/-! ## Visited expressions -/

/-- A test visited, with what is found about it. -/
def Analysis.visitTest (place : Place) (test : Expr) (findings : List Diagnostic)
    (analysis : Analysis) : Analysis :=
  (analysis.visit place test).reportAll findings

mutual

/-- The expressions that the analysis of a statement visits, each with the scopes open then. The
target of an assignment is one of them. -/
def Stmt.visits (place : Place) : Stmt → Analysis → List (Expr × Scopes)
  | .declare _ init _, analysis => [(init, analysis.scopes)]
  | .assign target value _, analysis =>
    [(value, analysis.scopes), (target, (analysis.visit place value).scopes)]
  | .branch test body none _, analysis =>
    let tested := analysis.visitTest place test (checkBranchTest test)
    (test, analysis.scopes) :: blockVisits place body tested.enter
  | .branch test body (some alternative) _, analysis =>
    let tested := analysis.visitTest place test (checkBranchTest test)
    let taken := tested.within (analyzeBlock place body)
    (test, analysis.scopes) ::
      (blockVisits place body tested.enter ++ blockVisits place alternative taken.enter)
  | .loop test body position, analysis =>
    let tested := analysis.visitTest place test (checkLoop test body position)
    (test, analysis.scopes) :: blockVisits { place with insideLoop := true } body tested.enter
  | .ret value _, analysis => [(value, analysis.scopes)]
  | .leave _, _ => []
  | .eval value _, analysis => [(value, analysis.scopes)]

/-- The expressions that the analysis of statements visits, each with the scopes open then. -/
def Stmt.blockVisits (place : Place) : List Stmt → Analysis → List (Expr × Scopes)
  | [], _ => []
  | stmt :: rest, analysis =>
    stmt.visits place analysis ++ blockVisits place rest (stmt.analyze place analysis)

end

/-- A clean result means that nothing was found in a visited expression. -/
theorem Analysis.undeclared_of_clean {expr : Expr} {analysis : Analysis}
    (clean : (analysis.visit place expr).diagnostics = []) :
    expr.undeclared (place.knows analysis.scopes) = [] :=
  (append_eq_nil_iff.mp clean).2

/-- A clean result of an assignment means that its target is a plain name and that nothing was found
in its parts. -/
theorem Analysis.assign_of_clean {target value : Expr} {analysis : Analysis}
    (clean : (analysis.visitAssign place target value position).diagnostics = []) :
    (∃ name position, target = .ident name [] position) ∧
      value.undeclared (place.knows analysis.scopes) = [] ∧
      target.undeclared (place.knows analysis.scopes) = [] := by
  unfold visitAssign at clean
  dsimp only at clean
  split at clean
  · next name position' =>
      have visited := (keeps_reportAll _ _).clean clean
      have before := (keeps_visit _ _ _).clean visited
      exact ⟨⟨name, position', rfl⟩, undeclared_of_clean before, (undeclared_of_clean visited :)⟩
  · exact absurd clean (by simp [report])

/-- A clean result behind a test means that nothing was found in it. -/
theorem Analysis.undeclared_of_visitTest {test : Expr} {findings : List Diagnostic}
    {analysis : Analysis} (clean : (analysis.visitTest place test findings).diagnostics = []) :
    test.undeclared (place.knows analysis.scopes) = [] :=
  undeclared_of_clean ((keeps_reportAll _ findings).clean clean)

namespace Stmt

/-- A clean result of a block with a scope of its own was clean before it. -/
theorem clean_before_within {block : List Stmt} {analysis : Analysis}
    (clean : (analysis.within (analyzeBlock place block)).diagnostics = []) :
    analysis.diagnostics = [] :=
  (keeps_within analysis (grows_analyzeBlock place block _)).clean clean

mutual

/-- On the way to a clean result, the names in all visited expressions of a statement are known. -/
theorem undeclared_visits {place : Place} {stmt : Stmt} {analysis : Analysis}
    (clean : (stmt.analyze place analysis).diagnostics = []) {visited : Expr × Scopes}
    (mem : visited ∈ stmt.visits place analysis) :
    visited.1.undeclared (place.knows visited.2) = [] := by
  cases stmt with
  | declare name init =>
    obtain rfl := mem_singleton.mp mem
    have declared := (keeps_recordType? _ _ _ _).clean clean
    exact undeclared_of_clean (clean_of_declare declared)
  | assign target value =>
    obtain ⟨-, valueKnown, targetKnown⟩ := assign_of_clean clean
    rcases mem_cons.mp mem with rfl | mem
    · exact valueKnown
    · obtain rfl := mem_singleton.mp mem
      exact targetKnown
  | branch test body alternative =>
    cases alternative with
    | none =>
      rcases mem_cons.mp mem with rfl | inside
      · exact undeclared_of_visitTest (clean_before_within clean)
      · exact undeclared_blockVisits clean inside
    | some alternative =>
      have taken := clean_before_within clean
      rcases mem_cons.mp mem with rfl | inside
      · exact undeclared_of_visitTest (clean_before_within taken)
      · rcases mem_append.mp inside with inside | inside
        · exact undeclared_blockVisits taken inside
        · exact undeclared_blockVisits clean inside
  | loop test body =>
    rcases mem_cons.mp mem with rfl | inside
    · exact undeclared_of_visitTest (clean_before_within clean)
    · exact undeclared_blockVisits clean inside
  | ret value =>
    obtain rfl := mem_singleton.mp mem
    rw [analyze] at clean
    split at clean <;> exact (undeclared_of_clean clean :)
  | leave => cases mem
  | eval value =>
    obtain rfl := mem_singleton.mp mem
    exact undeclared_of_clean clean

theorem undeclared_blockVisits {place : Place} {block : List Stmt} {analysis : Analysis}
    (clean : (analyzeBlock place block analysis).diagnostics = []) {visited : Expr × Scopes}
    (mem : visited ∈ blockVisits place block analysis) :
    visited.1.undeclared (place.knows visited.2) = [] := by
  cases block with
  | nil => cases mem
  | cons stmt rest =>
    rw [analyzeBlock] at clean
    rcases mem_append.mp mem with here | later
    · exact undeclared_visits ((grows_analyzeBlock place rest _).clean clean) here
    · exact undeclared_blockVisits clean later

end

end Stmt

/-! ## Declarations -/

namespace Analysis

variable (program : Program) (decl : ClassDecl)

theorem grows_visitParam (place : Place) {param : Param}
    (sort : adds (param.name, ⟨.parameterRole, param.position⟩)) (analysis : Analysis) :
    Grows adds analysis (visitParam place analysis param) :=
  (analysis.grows_declare sort _).trans
    (((keeps_reportAll _ _).trans (keeps_recordType _ _ _ _)).grows adds)

/-- Where the statements of a method stand. -/
def insideMethod (method : Method) : Place :=
  { program := program
    decl := decl
    path := [decl.name, method.name]
    insideMethod := true
    insideLoop := false }

/-- The analysis of a method up to its statements. -/
def visitHead (method : Method) (analysis : Analysis) : Analysis :=
  let analysis := method.params.foldl (visitParam (insideMethod program decl method)) analysis
  let analysis := analysis.reportAll (TypeRef.checkList program method.result.toList)
  analysis.reportAll (program.checkOverride decl method)

/-- A method is analysed in a scope of its own, its head before its statements. -/
theorem visitMethod_eq (method : Method) (analysis : Analysis) :
    analysis.visitMethod program decl method =
      analysis.within fun analysis =>
        analyzeBlock (insideMethod program decl method) method.body
          (analysis.visitHead program decl method) :=
  rfl

theorem grows_visitHead {method : Method}
    (sort : ∀ param ∈ method.params, adds (param.name, ⟨.parameterRole, param.position⟩))
    (analysis : Analysis) : Grows adds analysis (analysis.visitHead program decl method) :=
  (Grows.foldl (fun param mem => grows_visitParam _ (sort param mem)) analysis).trans
    (((keeps_reportAll _ _).trans (keeps_reportAll _ _)).grows adds)

/-- Analysing a member keeps the declarations. -/
theorem keeps_visitMember (analysis : Analysis) (member : Member) :
    analysis.Keeps (visitMember program decl analysis member) := by
  cases member with
  | field field => exact (analysis.keeps_visit _ _).trans (keeps_recordType? _ _ _ _)
  | method method =>
    rw [visitMember, visitMethod_eq]
    have head : Grows (fun _ => True) analysis.enter (analysis.enter.visitHead program decl method) :=
      grows_visitHead program decl (fun _ _ => trivial) _
    have body := grows_analyzeBlock (insideMethod program decl method) method.body
    exact analysis.keeps_within (head.trans ((body _).mono fun _ _ => trivial))

/-- What a class declares a name as. -/
def Declares (entry : String × Declaration) : Prop :=
  entry.2.role = .variableRole ∧ (decl.field? entry.1).isSome = true ∨
    entry.2.role = .methodRole ∧ (decl.method? entry.1).isSome = true

/-- Declaring a member adds at most its name. -/
theorem grows_declareMember {member : Member} (owned : member ∈ decl.members)
    (analysis : Analysis) : Grows (Declares decl) analysis (declareMember analysis member) := by
  cases member with
  | field field =>
    have mem : field ∈ decl.fields := ClassDecl.mem_fields.mpr owned
    refine analysis.grows_declare (.inl ⟨rfl, ?_⟩) _
    exact find?_isSome.mpr ⟨field, mem, decide_eq_true rfl⟩
  | method method =>
    have mem : method ∈ decl.methods := ClassDecl.mem_methods.mpr owned
    refine analysis.grows_declare (.inr ⟨rfl, ?_⟩) _
    exact find?_isSome.mpr ⟨method, mem, decide_eq_true rfl⟩

/-- The members of a class declared, after its base is checked. -/
def openClass (analysis : Analysis) : Analysis :=
  decl.members.foldl declareMember (analysis.enter.reportAll (program.checkBase decl))

/-- A class is analysed in a scope of its own: its members in order, then its statements. -/
theorem visitClass_eq (analysis : Analysis) :
    visitClass program analysis decl =
      analysis.within fun _ =>
        (decl.members.foldl (visitMember program decl) (analysis.openClass program decl)).within
          (analyzeBlock (outsideMethods program decl [decl.name, "this"]) decl.init) :=
  rfl

theorem grows_openClass (analysis : Analysis) :
    Grows (Declares decl) analysis.enter (analysis.openClass program decl) :=
  ((keeps_reportAll _ _).grows _).trans (Grows.foldl (fun _ => grows_declareMember decl) _)

/-- Analysing a class keeps the declarations. -/
theorem keeps_visitClass (analysis : Analysis) (decl : ClassDecl) :
    analysis.Keeps (visitClass program analysis decl) := by
  rw [visitClass_eq]
  refine analysis.keeps_within ((grows_openClass program decl analysis).trans ?_)
  have members := Keeps.foldl (keeps_visitMember program decl) decl.members
  exact ((members _).trans (keeps_within _ (grows_analyzeBlock _ _ _))).grows _

end Analysis

namespace Program

variable (program : Program)

/-- The analysis of a program when its classes are declared. -/
def declared : Analysis :=
  program.classes.foldl declareClass (enter {})

/-- The analysis of a program when it has come through some classes. -/
def visited (before : List ClassDecl) : Analysis :=
  before.foldl (visitClass program) program.declared

/-- The analysis of a program comes to statements of a class, with their parameters, at a place and in
a state. An initial value of a field counts as a statement. -/
inductive Analyzes : ClassDecl → List Param → List Stmt → Place → Analysis → Prop
  | field {before after decl first later field} (classes : program.classes = before ++ decl :: after)
      (members : decl.members = first ++ .field field :: later) :
      Analyzes decl [] [.eval field.init field.position]
        (outsideMethods program decl [decl.name])
        (first.foldl (visitMember program decl) ((program.visited before).openClass program decl))
  | method {before after decl first later method} (classes : program.classes = before ++ decl :: after)
      (members : decl.members = first ++ .method method :: later) :
      Analyzes decl method.params method.body (insideMethod program decl method)
        ((first.foldl (visitMember program decl)
          ((program.visited before).openClass program decl)).enter.visitHead program decl method)
  | init {before after decl} (classes : program.classes = before ++ decl :: after) :
      Analyzes decl [] decl.init (outsideMethods program decl [decl.name, "this"])
        (decl.members.foldl (visitMember program decl)
          ((program.visited before).openClass program decl)).enter

variable {program} {decl : ClassDecl}

/-- On the way to a clean result, the analysis of every class is clean before and behind its
members. -/
theorem clean_visitClass (clean : program.analyze.isClean = true) {before after : List ClassDecl}
    (classes : program.classes = before ++ decl :: after) :
    ((decl.members.foldl (visitMember program decl)
      ((program.visited before).openClass program decl)).within
        (analyzeBlock (outsideMethods program decl [decl.name, "this"])
          decl.init)).diagnostics = [] := by
  have whole : (program.classes.foldl (visitClass program) program.declared).diagnostics =
      [] := isEmpty_iff.mp clean
  -- later classes take no diagnostic back, so none has been reported up to this class
  rw [classes, foldl_append, foldl_cons] at whole
  have here := (Keeps.foldl (keeps_visitClass program) after _).clean whole
  rw [visitClass_eq] at here
  exact clean_of_within _ here

/-- On the way to a clean result, the analysis of every member is clean. -/
theorem clean_visitMember (clean : program.analyze.isClean = true) {before after : List ClassDecl}
    (classes : program.classes = before ++ decl :: after) {first later : List Member}
    {member : Member} (members : decl.members = first ++ member :: later) :
    (visitMember program decl (first.foldl (visitMember program decl)
      ((program.visited before).openClass program decl)) member).diagnostics = [] := by
  have whole := clean_before_within (clean_visitClass clean classes)
  rw [members, foldl_append, foldl_cons] at whole
  exact (Keeps.foldl (keeps_visitMember program decl) later _).clean whole

/-- On the way to a clean result, the analysis of statements is clean. -/
theorem Analyzes.clean {decl : ClassDecl} {params : List Param} {block : List Stmt} {place : Place}
    {analysis : Analysis} (analyzes : program.Analyzes decl params block place analysis)
    (clean : program.analyze.isClean = true) :
    (analyzeBlock place block analysis).diagnostics = [] := by
  cases analyzes with
  | init classes => exact clean_visitClass clean classes
  | field classes members =>
    exact (keeps_recordType? _ _ _ _).clean (clean_visitMember clean classes members)
  | method classes members =>
    have here := clean_visitMember clean classes members
    rw [visitMember, visitMethod_eq] at here
    exact clean_of_within _ here

/-- When a class is analysed, two scopes are open: that of its members and that of all classes. -/
def Opens (program : Program) (decl : ClassDecl) (scopes : List (List (String × Declaration))) :
    Prop :=
  ∃ members classes, scopes = [members, classes] ∧
    (∀ entry ∈ members, Analysis.Declares decl entry) ∧
    ∀ entry ∈ classes, entry.2.role = .classRole ∧ (program.class? entry.1).isSome = true

/-- The scopes that are open when the members of a class are declared. -/
theorem opens_openClass (before : List ClassDecl) (decl : ClassDecl) :
    program.Opens decl ((program.visited before).openClass program decl).scopes.declarations := by
  have declared : Grows (fun entry => entry.2.role = .classRole ∧
      (program.class? entry.1).isSome = true) (enter {}) program.declared :=
    Grows.foldl (fun decl mem analysis => analysis.grows_declare
      ⟨rfl, find?_isSome.mpr ⟨decl, mem, decide_eq_true rfl⟩⟩ _) _
  obtain ⟨classes, added, ofClasses⟩ := declared.declarations
  obtain ⟨members, added', ofMembers⟩ :=
    (grows_openClass program decl (program.visited before)).declarations
  -- the classes in between leave the scope of the classes as it is
  have through := (Keeps.foldl (keeps_visitClass program) before
    program.declared).declarations
  refine ⟨members ++ [], classes ++ [], ?_, by simpa using ofMembers, by simpa using ofClasses⟩
  rw [added']
  change (members ++ []) :: (program.visited before).scopes.declarations = _
  rw [visited, through, added]
  rfl

theorem opens_visitMembers (before : List ClassDecl) (decl : ClassDecl) (first : List Member) :
    program.Opens decl (first.foldl (visitMember program decl)
      ((program.visited before).openClass program decl)).scopes.declarations := by
  rw [(Keeps.foldl (keeps_visitMember program decl) first _).declarations]
  exact opens_openClass before decl

/-- Besides the scopes of a class, the analysis comes to statements with a scope that holds the names
of their parameters. There is none for an initial value. -/
theorem Analyzes.exists_scopes {params : List Param} {block : List Stmt} {analysis : Analysis}
    (analyzes : program.Analyzes decl params block place analysis) :
    ∃ inner outer : List (List (String × Declaration)),
      analysis.scopes.declarations = inner ++ outer ∧ program.Opens decl outer ∧
      (∀ scope ∈ inner, ∀ entry ∈ scope, entry.1 ∈ params.map Param.name) ∧
      (inner = [] → declaredOnTop block = []) := by
  cases analyzes with
  | field classes members => exact ⟨[], _, rfl, opens_visitMembers _ _ _, by simp, fun _ => rfl⟩
  | init classes => exact ⟨[[]], _, rfl, opens_visitMembers _ _ _, by simp, nofun⟩
  | @method before _ _ first _ method classes members =>
    have head : Grows (fun entry => entry.1 ∈ method.params.map Param.name) _ _ :=
      grows_visitHead program decl (fun _ mem => mem_map_of_mem mem)
        (first.foldl (visitMember program decl)
          ((program.visited before).openClass program decl)).enter
    obtain ⟨new, added, ofParams⟩ := head.declarations
    exact ⟨[new ++ []], _, added, opens_visitMembers _ _ _, by simpa using ofParams, nofun⟩

end Program

end ClassLang
