import ClassLang.Proofs.Analysis.Names

/-! # Undeclared names

The names that the analysis of a program finds undeclared are exactly the mentioned ones that are not
visible, once for each mention and in the order of the text (`Program.undeclared_analyze_eq`). All
other findings are about something else, and every statement is analysed in scopes that agree with the
text around it. -/

namespace ClassLang

open List Analysis Diagnostic Program

/-! ## Names that are not known -/

/-- The name that a diagnostic finds undeclared, with its place. -/
def Diagnostic.undeclared? : Diagnostic → Option (String × Position)
  | ⟨.undeclared name, position⟩ => some (name, position)
  | _ => none

/-- The names that an analysis has found undeclared so far, with their places. -/
def Analysis.undeclared (analysis : Analysis) : List (String × Position) :=
  analysis.diagnostics.filterMap Diagnostic.undeclared?

mutual

/-- The diagnostics about the names of an expression are those of its unknown names. -/
theorem Expr.filterMap_undeclared (known : String → Bool) (expr : Expr) :
    (expr.undeclared known).filterMap undeclared? =
      expr.names.filter fun entry => !known entry.1 := by
  cases expr with
  | ident name arguments =>
    rw [undeclared, names]
    by_cases found : known name = true <;> simp [found, undeclared?]
  | binary op left right =>
    rw [undeclared, names, filterMap_append, filter_append,
      left.filterMap_undeclared, right.filterMap_undeclared]
  | member target name => exact target.filterMap_undeclared known
  | call callee arguments =>
    rw [undeclared, names, filterMap_append, filter_append,
      callee.filterMap_undeclared, filterMap_undeclaredList known arguments]
  | _ => rfl

theorem Expr.filterMap_undeclaredList (known : String → Bool) (exprs : List Expr) :
    (undeclaredList known exprs).filterMap undeclared? =
      (listNames exprs).filter fun entry => !known entry.1 := by
  cases exprs with
  | nil => rfl
  | cons expr rest =>
    rw [undeclaredList, listNames, filterMap_append, filter_append,
      expr.filterMap_undeclared, filterMap_undeclaredList known rest]

end

/-- Other findings are about no undeclared names. -/
theorem Diagnostic.filterMap_undeclared?_of_isAside {diagnostics : List Diagnostic}
    (aside : diagnostics.all isAside = true) : diagnostics.filterMap undeclared? = [] := by
  rw [filterMap_eq_nil_iff]
  rintro ⟨finding, position⟩ mem
  have other := all_eq_true.mp aside _ mem
  cases finding <;> first | rfl | cases other

namespace Analysis

/-- Diagnostics about other things than names add no undeclared name. -/
theorem undeclared_reportAll_of_isAside (analysis : Analysis) {diagnostics : List Diagnostic}
    (aside : diagnostics.all isAside = true) :
    (analysis.reportAll diagnostics).undeclared = analysis.undeclared := by
  rw [undeclared, diagnostics_reportAll, filterMap_append,
    filterMap_undeclared?_of_isAside aside, append_nil, undeclared]

/-- Steps that find no undeclared name, for the elements of a list. -/
theorem undeclared_foldl {α : Type} {step : Analysis → α → Analysis}
    (quiet : ∀ analysis element, (step analysis element).undeclared = analysis.undeclared)
    (elements : List α) (analysis : Analysis) :
    (elements.foldl step analysis).undeclared = analysis.undeclared := by
  induction elements generalizing analysis with
  | nil => rfl
  | cons element rest ih => rw [foldl_cons, ih, quiet]

/-- A name that is declared twice is not undeclared. -/
theorem undeclared_declare (analysis : Analysis) (name : String) (role : Role) (position : Position)
    {duplicate : Finding} (aside : isAside ⟨duplicate, position⟩ = true) :
    (analysis.declare name role position duplicate).undeclared = analysis.undeclared := by
  unfold declare
  split
  · rfl
  · rw [report_eq_reportAll]
    exact analysis.undeclared_reportAll_of_isAside (by simp [aside])

theorem undeclared_recordType? (analysis : Analysis) (path : List String) (name : String)
    (type? : Option String) :
    (analysis.recordType? path name type?).undeclared = analysis.undeclared := by
  rw [undeclared, diagnostics_recordType?, undeclared]

end Analysis

/-- A comparison of types finds no undeclared name. -/
theorem Analysis.filterMap_checkAssigned (analysis : Analysis) (name : String) (value : Expr)
    (position : Position) :
    (analysis.checkAssigned name value position).filterMap undeclared? = [] := by
  unfold checkAssigned
  split
  · split <;> rfl
  · rfl

namespace Stmt

/-- What is found undeclared in a statement itself are its unknown names. -/
theorem filterMap_findings (place : Place) (stmt : Stmt) (analysis : Analysis) :
    (stmt.findings place analysis).filterMap undeclared? =
      stmt.names.filter fun entry => !place.knows analysis.scopes entry.1 := by
  cases stmt with
  | declare name init => exact init.filterMap_undeclared _
  | assign target value =>
    rw [findings, filterMap_append, value.filterMap_undeclared]
    unfold targetFindings
    split
    · rw [filterMap_append, Expr.filterMap_undeclared,
        filterMap_checkAssigned, append_nil, names, filter_append, Expr.names]
    · next notPlain =>
        rw [names]
        · simp [undeclared?]
        · exact notPlain
  | branch test body alternative =>
    rw [findings, filterMap_append, test.filterMap_undeclared,
      filterMap_undeclared?_of_isAside (all_isAside_checkBranchTest test),
      append_nil, names]
  | loop test body position =>
    rw [findings, filterMap_append, test.filterMap_undeclared,
      filterMap_undeclared?_of_isAside (all_isAside_checkLoop test body position),
      append_nil, names]
  | ret value =>
    rw [findings, filterMap_append, value.filterMap_undeclared, names]
    split <;> rfl
  | leave =>
    rw [findings, names]
    split <;> rfl
  | eval value => exact value.filterMap_undeclared _

/-- Declaring a variable finds no undeclared name. -/
theorem undeclared_declareIn (place : Place) (stmt : Stmt) (analysis : Analysis) :
    (stmt.declareIn place analysis).undeclared = analysis.undeclared := by
  cases stmt with
  | declare name init =>
    rw [declareIn, undeclared_recordType?]
    exact analysis.undeclared_declare _ _ _ rfl
  | _ => rfl

end Stmt

/-! ## Statements -/

section

open scoped Classical

variable {analysis : Analysis} {around : Surroundings}

/-- The mentioned names that are not visible, with their places. -/
noncomputable def Program.hidden (program : Program) (mentions : List Mention) :
    List (String × Position) :=
  (mentions.filter fun mention => ¬ program.Visible mention.around mention.name).map
    fun mention => (mention.name, mention.position)

@[simp] theorem Program.hidden_nil (program : Program) : program.hidden [] = [] := rfl

@[simp] theorem Program.hidden_append (program : Program) (first second : List Mention) :
    program.hidden (first ++ second) = program.hidden first ++ program.hidden second := by
  simp [hidden]

/-- The names that the analysis does not know are the hidden ones. -/
theorem Place.Agrees.filter_eq {place : Place} {scopes : Scopes}
    (agrees : place.Agrees scopes around) (names : List (String × Position)) :
    (names.filter fun entry => !place.knows scopes entry.1) =
      place.program.hidden (mentionAll around names) := by
  induction names with
  | nil => rfl
  | cons entry rest ih =>
    unfold Program.hidden mentionAll at ih ⊢
    rw [filter_cons, map_cons, filter_cons, ih]
    by_cases visible : place.program.Visible around entry.1
    · simp [visible, (agrees.knows_iff entry.1).mpr visible]
    · have unknown : place.knows scopes entry.1 = false :=
        Bool.eq_false_iff.mpr fun known => visible ((agrees.knows_iff entry.1).mp known)
      simp [visible, unknown]

/-- Visiting an expression finds its hidden names. -/
theorem Analysis.undeclared_visit {place : Place} (agrees : place.Agrees analysis.scopes around)
    (expr : Expr) :
    (analysis.visit place expr).undeclared =
      analysis.undeclared ++ place.program.hidden (mentionAll around expr.names) := by
  rw [visit, undeclared, diagnostics_reportAll, filterMap_append, Expr.filterMap_undeclared,
    agrees.filter_eq, undeclared]

namespace Stmt

/-- The undeclared names in the statements of a block are the hidden ones that they mention. -/
def FindsHidden (block : List Stmt) : Prop :=
  ∀ (place : Place) (around : Surroundings) (earlier : List Stmt) (analysis : Analysis),
    analysis.scopes.declarations ≠ [] →
    place.Agrees analysis.scopes (around.inBlock earlier) →
    (analyzeBlock place block analysis).undeclared =
      analysis.undeclared ++ place.program.hidden (blockMentions around earlier block)

/-- The undeclared names in blocks with scopes of their own. -/
theorem undeclared_analyzeBlocks {blocks : List (List Stmt)}
    (finds : ∀ block ∈ blocks, FindsHidden block) {place : Place} (analysis : Analysis)
    (agrees : place.Agrees analysis.scopes around) :
    (analyzeBlocks place blocks analysis).undeclared =
      analysis.undeclared ++ place.program.hidden (blocks.flatMap (blockMentions around [])) := by
  induction blocks generalizing analysis with
  | nil => simp [analyzeBlocks]
  | cons block more ih =>
    obtain ⟨here, later⟩ := forall_mem_cons.mp finds
    have inBlock : (analysis.within (analyzeBlock place block)).undeclared =
        analysis.undeclared ++ place.program.hidden (blockMentions around [] block) :=
      here place around [] analysis.enter (cons_ne_nil _ _) agrees.enter
    -- the scope of the block is closed behind it, so the next block sees the same names
    have closed := agrees.keeps
      (analysis.keeps_within (grows_analyzeBlock place block analysis.enter))
    rw [analyzeBlocks_cons, ih later _ closed, inBlock, flatMap_cons,
      hidden_append, append_assoc]

/-- The undeclared names in a block are the hidden ones that it mentions. -/
theorem findsHidden (block : List Stmt) : FindsHidden block := by
  induction block using block_induction with
  | nil => exact fun place around earlier analysis _ _ => by simp [analyzeBlock, blockMentions]
  | cons stmt rest inBlocks ih =>
    intro place around earlier analysis opened agrees
    -- first what is found in the statement itself
    have reported : (analysis.reportAll (stmt.findings place analysis)).undeclared =
        analysis.undeclared ++
          place.program.hidden (mentionAll (around.inBlock earlier) stmt.names) := by
      rw [undeclared, diagnostics_reportAll, filterMap_append,
        filterMap_findings, agrees.filter_eq, undeclared]
    have bound : (stmt.declareIn place (analysis.reportAll (stmt.findings place analysis))).undeclared =
        analysis.undeclared ++
          place.program.hidden (mentionAll (around.inBlock earlier) stmt.names) := by
      rw [undeclared_declareIn, reported]
    -- then what is found in its blocks; a statement that declares a variable has none
    have whole : (stmt.analyze place analysis).undeclared = analysis.undeclared ++
        place.program.hidden (stmt.mentions (around.inBlock earlier)) := by
      rw [analyze_eq, mentions_eq, hidden_append, ← append_assoc, ← bound]
      cases declared : stmt.declared? with
      | none =>
        rw [declareIn_of_declared? declared]
        have same := undeclared_analyzeBlocks inBlocks
          (analysis.reportAll (stmt.findings place analysis)) (agrees.inside stmt)
        have program : (stmt.inside place).program = place.program := by cases stmt <;> rfl
        rw [same, program]
      | some name =>
        have noBlocks : stmt.blocks = [] := by
          cases stmt with
          | declare => rfl
          | _ => cases declared
        simp [noBlocks, analyzeBlocks]
    have adds : Analysis.Adds (stmt.declared?.toList.map Prod.fst) analysis
        (stmt.analyze place analysis) := by
      rw [analyze_eq]
      have first := ((analysis.keeps_reportAll (stmt.findings place analysis)).adds).trans
        (stmt.adds_declareIn place _)
      simpa using first.trans (keeps_analyzeBlocks _ _ _).adds
    rw [analyzeBlock, ih place around (earlier ++ [stmt]) _ (adds opened).1
      (agrees.step opened adds), whole, blockMentions, hidden_append,
      append_assoc]

end Stmt

/-! ## Classes -/

namespace Analysis

variable (program : Program) (decl : ClassDecl)

/-- Steps that find hidden names and keep the declarations, for the elements of a list. What makes
them find the names holds of the scopes and so lasts. -/
theorem undeclared_foldl_of_keeps {α : Type} {step : Analysis → α → Analysis}
    {mentions : α → List Mention} (sees : Analysis → Prop)
    (lasts : ∀ before after : Analysis, before.Keeps after → sees before → sees after)
    (keeps : ∀ analysis element, Keeps analysis (step analysis element))
    (finds : ∀ analysis element, sees analysis → (step analysis element).undeclared =
      analysis.undeclared ++ program.hidden (mentions element)) (elements : List α)
    (start : sees analysis) :
    (elements.foldl step analysis).undeclared =
      analysis.undeclared ++ program.hidden (elements.flatMap mentions) := by
  induction elements generalizing analysis with
  | nil => simp
  | cons element rest ih =>
    rw [foldl_cons, ih (lasts _ _ (keeps analysis element) start),
      finds analysis element start, flatMap_cons, hidden_append, append_assoc]

/-- Parameters and types hold no undeclared names. -/
theorem undeclared_visitHead (method : Method) (analysis : Analysis) :
    (analysis.visitHead program decl method).undeclared = analysis.undeclared := by
  have param (analysis : Analysis) (param : Param) :
      (visitParam (insideMethod program decl method) analysis param).undeclared =
        analysis.undeclared :=
    (undeclared_reportAll_of_isAside _ (TypeRef.all_isAside_check _ _)).trans
      (analysis.undeclared_declare _ _ _ rfl)
  rw [visitHead, undeclared_reportAll_of_isAside _ (all_isAside_checkOverride _ _ _),
    undeclared_reportAll_of_isAside _ (TypeRef.all_isAside_checkList _ _), undeclared_foldl param]

/-- The head of a method adds its parameters. -/
theorem adds_visitHead (method : Method) (analysis : Analysis) :
    Adds (method.params.map Param.name) analysis (analysis.visitHead program decl method) := by
  have params := Adds.foldl (adds_visitParam (insideMethod program decl method)) method.params analysis
  have result := params.trans (keeps_reportAll _ (TypeRef.checkList program method.result.toList)).adds
  have all := result.trans (keeps_reportAll _ (program.checkOverride decl method)).adds
  rwa [append_nil, append_nil] at all

/-- The undeclared names in a method are the hidden ones that it mentions. -/
theorem undeclared_visitMember
    (agrees : (outsideMethods program decl [decl.name]).Agrees analysis.scopes ⟨decl, [], []⟩)
    (member : Member) :
    (visitMember program decl analysis member).undeclared =
      analysis.undeclared ++ program.hidden (member.mentions decl) := by
  cases member with
  | field field =>
    rw [visitMember, undeclared_recordType?]
    exact undeclared_visit agrees field.init
  | method method =>
    rw [visitMember, visitMethod_eq]
    change (Stmt.analyzeBlock _ _ (analysis.enter.visitHead program decl method)).undeclared = _
    have opened := adds_visitHead program decl method analysis.enter (cons_ne_nil _ _)
    rw [Stmt.findsHidden method.body (insideMethod program decl method)
      ⟨decl, method.params, []⟩ [] _ opened.1, undeclared_visitHead]
    · rfl
    · -- the scope of the method holds its parameters
      refine ⟨rfl, fun name => ?_⟩
      rw [opened.2, isSome_lookup_enter, agrees.found, declares_inBlock_nil]
      simp only [Program.Declares, mem_map, not_mem_nil, false_and, exists_false, or_false]
      exact or_assoc

/-- The undeclared names in a class are the hidden ones that it mentions. -/
theorem undeclared_visitClass (classes : ∀ name, (analysis.scopes.lookup name).isSome = true ↔
      ∃ decl ∈ program.classes, decl.name = name) (decl : ClassDecl) :
    (visitClass program analysis decl).undeclared =
      analysis.undeclared ++ program.hidden decl.mentions := by
  have declared (analysis : Analysis) (member : Member) :
      (declareMember analysis member).undeclared = analysis.undeclared := by
    cases member <;> exact analysis.undeclared_declare _ _ _ rfl
  have opened : (analysis.openClass program decl).undeclared = analysis.undeclared := by
    rw [openClass, undeclared_foldl declared,
      undeclared_reportAll_of_isAside _ (all_isAside_checkBase _ _)]
    rfl
  -- the scope of the class holds its members
  have agrees : (outsideMethods program decl [decl.name]).Agrees
      (analysis.openClass program decl).scopes ⟨decl, [], []⟩ := by
    have adds := (keeps_reportAll analysis.enter (program.checkBase decl)).adds.trans
      (Adds.foldl adds_declareMember decl.members _)
    refine ⟨rfl, fun name => ?_⟩
    have found := (adds (cons_ne_nil _ _)).2 name
    rw [isSome_lookup_enter, classes, nil_append, mem_map] at found
    rw [openClass, found]
    simp [Program.Declares, outsideMethods]
  have members := undeclared_foldl_of_keeps program
    (fun analysis => (outsideMethods program decl [decl.name]).Agrees analysis.scopes ⟨decl, [], []⟩)
    (fun _ _ keeps agrees => agrees.keeps keeps) (keeps_visitMember program decl)
    (fun _ member agrees => undeclared_visitMember program decl agrees member) decl.members agrees
  have behind := agrees.keeps (Keeps.foldl (keeps_visitMember program decl) decl.members _)
  rw [visitClass_eq]
  change (Stmt.analyzeBlock _ _ (decl.members.foldl (visitMember program decl)
    (analysis.openClass program decl)).enter).undeclared = _
  rw [Stmt.findsHidden decl.init _ ⟨decl, [], []⟩ [] _ (cons_ne_nil _ _)]
  · change (decl.members.foldl (visitMember program decl)
      (analysis.openClass program decl)).undeclared ++ _ = _
    rw [members, opened, ClassDecl.mentions, hidden_append, append_assoc]
    rfl
  · exact Place.Agrees.enter ⟨rfl, behind.found⟩

end Analysis

/-! ## Programs -/

/-- When the classes of a program are declared, exactly their names can be looked up. -/
theorem Program.isSome_lookup_declared (program : Program) (name : String) :
    (program.declared.scopes.lookup name).isSome = true ↔
      ∃ decl ∈ program.classes, decl.name = name := by
  have adds := Analysis.Adds.foldl adds_declareClass program.classes (enter {})
  rw [declared, (adds (cons_ne_nil _ _)).2]
  simp [Scopes.isSome_lookup_iff, enter, Scopes.enter]

/-- The undeclared names in a program are the hidden ones that it mentions. -/
theorem Program.undeclared_analyze_eq (program : Program) :
    program.analyze.undeclared = program.hidden program.mentions := by
  have quiet (analysis : Analysis) (decl : ClassDecl) :
      (declareClass analysis decl).undeclared = analysis.undeclared :=
    analysis.undeclared_declare _ _ _ rfl
  have visited := undeclared_foldl_of_keeps program
    (fun analysis => ∀ name, (analysis.scopes.lookup name).isSome = true ↔
      ∃ decl ∈ program.classes, decl.name = name)
    (fun before after keeps found name => by
      rw [Scopes.lookup, keeps.declarations, ← Scopes.lookup, found])
    (keeps_visitClass program)
    (fun _ decl found => undeclared_visitClass program found decl)
    program.classes program.isSome_lookup_declared
  change (program.classes.foldl (visitClass program) program.declared).undeclared = _
  rw [visited, declared, undeclared_foldl quiet]
  rfl

/-- The analysis of a program finds undeclared exactly the names that it mentions where they are not
visible: one diagnostic for each such mention, in the order of the text, and so a name is found
undeclared at a position if and only if it is mentioned there and not visible. -/
theorem Program.undeclared_analyze (program : Program) :
    program.analyze.diagnostics.filterMap Diagnostic.undeclared? =
        (program.mentions.filter fun mention =>
          ¬ program.Visible mention.around mention.name).map
          (fun mention => (mention.name, mention.position)) ∧
      ∀ name position, ⟨.undeclared name, position⟩ ∈ program.analyze.diagnostics ↔
        ∃ mention ∈ program.mentions, mention.name = name ∧ mention.position = position ∧
          ¬ program.Visible mention.around name := by
  refine ⟨program.undeclared_analyze_eq, fun name position => ?_⟩
  have mem : ⟨.undeclared name, position⟩ ∈ program.analyze.diagnostics ↔
      (name, position) ∈ program.analyze.undeclared := by
    rw [undeclared, mem_filterMap]
    constructor
    · exact fun found => ⟨_, found, rfl⟩
    · rintro ⟨⟨finding, place⟩, found, same⟩
      cases finding <;> cases same
      exact found
  rw [mem, program.undeclared_analyze_eq, Program.hidden]
  simp only [mem_map, mem_filter, decide_eq_true_eq, Prod.mk.injEq]
  constructor
  · rintro ⟨mention, ⟨mentioned, hidden⟩, rfl, rfl⟩
    exact ⟨mention, mentioned, rfl, rfl, hidden⟩
  · rintro ⟨mention, mentioned, rfl, rfl, hidden⟩
    exact ⟨mention, ⟨mentioned, hidden⟩, rfl, rfl⟩

end

end ClassLang
