import ClassLang.Proofs.Analysis.Bindings

/-! # Types of names

The analysis looks up the type of a name when it infers the type of an initial value or compares the two
sides of an assignment. At every lookup the scopes record the bindings in the text around it
(`Program.recorded_typeLookups`), and a mismatch is reported only with a type that was looked up
(`Program.compares_analyze`). -/

namespace ClassLang

open List Stmt Analysis Binding

variable {diagnostics : List Diagnostic} {analysis : Analysis}

/-! ## Lookups -/

/-- The names in an expression whose types decide on its own. -/
def Expr.consulted : Expr → List String
  | .ident name _ _ => [name]
  | .binary _ left right _ => left.consulted ++ right.consulted
  | _ => []

/-- The names whose types an assignment compares. There are none if its target is no plain name. -/
def Expr.compared (target value : Expr) : List String :=
  match target with
  | .ident name [] _ => name :: value.consulted
  | _ => []

/-- A lookup of the type of a name. -/
structure TypeLookup where
  name : String
  /-- The scopes that are open then. -/
  scopes : Scopes
  /-- The bindings in the text around the name. -/
  layers : List (List Binding)

/-- Lookups of names in the same scopes. -/
def TypeLookup.each (scopes : Scopes) (layers : List (List Binding)) (names : List String) :
    List TypeLookup :=
  names.map fun name => ⟨name, scopes, layers⟩

mutual

/-- The lookups made when a statement is analysed. Types are looked up for a variable when it is
declared, and for an assignment to a plain name. -/
def Stmt.typeLookups (place : Place) (outer : List (List Binding)) (layer : List Binding) :
    Stmt → Analysis → List TypeLookup
  | .declare name init position, analysis =>
    let declared := analysis.declare name .variableRole position (.duplicateVariable name)
    TypeLookup.each declared.scopes ((⟨name, ⟨.variableRole, position⟩, none⟩ :: layer) :: outer)
      init.consulted
  | .assign target value _, analysis =>
    TypeLookup.each analysis.scopes (layer :: outer) (target.compared value)
  | .branch test body none _, analysis =>
    let tested := analysis.visitTest place test (checkBranchTest test)
    blockTypeLookups place (layer :: outer) [] body tested.enter
  | .branch test body (some alternative) _, analysis =>
    let tested := analysis.visitTest place test (checkBranchTest test)
    let taken := tested.within (analyzeBlock place body)
    blockTypeLookups place (layer :: outer) [] body tested.enter ++
      blockTypeLookups place (layer :: outer) [] alternative taken.enter
  | .loop test body position, analysis =>
    let tested := analysis.visitTest place test (checkLoop test body position)
    blockTypeLookups { place with insideLoop := true } (layer :: outer) [] body tested.enter
  | _, _ => []

/-- The lookups made when statements are analysed. -/
def Stmt.blockTypeLookups (place : Place) (outer : List (List Binding)) (layer : List Binding) :
    List Stmt → Analysis → List TypeLookup
  | [], _ => []
  | stmt :: rest, analysis =>
    stmt.typeLookups place outer layer analysis ++
      blockTypeLookups place outer (stmt.extend outer layer) rest (stmt.analyze place analysis)

end

/-- The lookups made when a member of a class is analysed. -/
def Member.typeLookups (program : Program) (decl : ClassDecl) (layers : List (List Binding))
    (analysis : Analysis) : Member → List TypeLookup
  | .field member => TypeLookup.each analysis.scopes layers member.init.consulted
  | .method member =>
    blockTypeLookups (insideMethod program decl member) layers
      (member.params.map Param.toBinding).reverse member.body
      (analysis.enter.visitHead program decl member)

/-- The lookups made when members of a class are analysed, behind those that are bound already, and then
its statements run for a new object. -/
def ClassDecl.memberTypeLookups (program : Program) (decl : ClassDecl) (bound : List Binding) :
    List Member → Analysis → List TypeLookup
  | [], analysis =>
    blockTypeLookups (outsideMethods program decl [decl.name, "this"])
      [bound, program.layer] [] decl.init analysis.enter
  | member :: later, analysis =>
    member.typeLookups program decl
        [((member :: later).map (Member.toBinding none)).reverse ++ bound, program.layer] analysis ++
      decl.memberTypeLookups program
        (member.toBinding (member.typeIn [bound, program.layer]) :: bound) later
        (visitMember program decl analysis member)

/-- The lookups made when a class is analysed. -/
def ClassDecl.typeLookups (program : Program) (analysis : Analysis) (decl : ClassDecl) :
    List TypeLookup :=
  decl.memberTypeLookups program [] decl.members (analysis.openClass program decl)

/-- The lookups made when a program is analysed. -/
def Program.typeLookups (program : Program) : List TypeLookup :=
  (along (visitClass program) (ClassDecl.typeLookups program) program.classes
    program.declared).flatten

/-! ## What a lookup finds -/

/-- The layers of a lookup are recorded in its scopes. -/
def TypeLookup.Recorded (lookup : TypeLookup) : Prop :=
  Binding.Records lookup.layers lookup.scopes

/-- Lookups of names in scopes that record the layers. -/
theorem TypeLookup.recorded_each {scopes : Scopes} {layers : List (List Binding)}
    (records : Records layers scopes) (names : List String) :
    ∀ lookup ∈ TypeLookup.each scopes layers names, lookup.Recorded := by
  rintro lookup mem
  obtain ⟨name, -, rfl⟩ := mem_map.mp mem
  exact records

mutual

/-- Where the layers around a statement are recorded, so are those of its lookups. -/
theorem Stmt.recorded_typeLookups {layer : List Binding} {outer : List (List Binding)}
    {analysis : Analysis} (place : Place) (stmt : Stmt)
    (records : Records (layer :: outer) analysis.scopes) :
    ∀ lookup ∈ stmt.typeLookups place outer layer analysis, lookup.Recorded := by
  cases stmt with
  | declare name init =>
    exact TypeLookup.recorded_each (records.declare _ _ _ _) init.consulted
  | assign target value =>
    exact TypeLookup.recorded_each records (target.compared value)
  | branch test body alternative =>
    have tested : Records (layer :: outer)
        (analysis.visitTest place test (checkBranchTest test)).scopes := records
    have inBody := recorded_blockTypeLookups place body tested.enter
    cases alternative with
    | none => exact inBody
    | some alternative =>
      have taken := tested.alike (passes_analyzeBlock body place _).alike_within
      rw [typeLookups, forall_mem_append]
      exact ⟨inBody, recorded_blockTypeLookups place alternative taken.enter⟩
  | loop test body position =>
    have tested : Records (layer :: outer)
        (analysis.visitTest place test (checkLoop test body position)).scopes := records
    exact recorded_blockTypeLookups { place with insideLoop := true } body tested.enter
  | _ => exact forall_mem_nil _

theorem Stmt.recorded_blockTypeLookups {layer : List Binding} {outer : List (List Binding)}
    {analysis : Analysis} (place : Place) (block : List Stmt)
    (records : Records (layer :: outer) analysis.scopes) :
    ∀ lookup ∈ blockTypeLookups place outer layer block analysis, lookup.Recorded := by
  cases block with
  | nil => exact forall_mem_nil _
  | cons stmt rest =>
    rw [blockTypeLookups, forall_mem_append]
    exact ⟨recorded_typeLookups place stmt records,
      recorded_blockTypeLookups place rest (records_analyze records place stmt)⟩

end

/-- The layers of the lookups in a member are recorded. -/
theorem Member.recorded_typeLookups (program : Program) (decl : ClassDecl) (member : Member)
    {layers : List (List Binding)} (records : Records layers analysis.scopes) :
    ∀ lookup ∈ member.typeLookups program decl layers analysis, lookup.Recorded := by
  cases member with
  | field field => exact TypeLookup.recorded_each records field.init.consulted
  | method method =>
    have head := records_visitHead program decl method records.enter
    rw [append_nil] at head
    exact recorded_blockTypeLookups _ method.body head

/-- The layers of the lookups in members are recorded. -/
theorem ClassDecl.recorded_memberTypeLookups (program : Program) (decl : ClassDecl)
    (members : List Member) {bound : List Binding} (records : Records
      [(members.map (Member.toBinding none)).reverse ++ bound, program.layer] analysis.scopes) :
    ∀ lookup ∈ decl.memberTypeLookups program bound members analysis, lookup.Recorded := by
  induction members generalizing bound analysis with
  | nil => exact recorded_blockTypeLookups _ decl.init (Records.enter records)
  | cons member later ih =>
    rw [ClassDecl.memberTypeLookups, forall_mem_append]
    refine ⟨member.recorded_typeLookups program decl records, ih ?_⟩
    -- the members behind have no types yet
    have untyped : ∀ binding ∈ (later.map (Member.toBinding none)).reverse,
        binding.type? = none := by
      intro binding mem
      obtain ⟨member, -, rfl⟩ := mem_map.mp (mem_reverse.mp mem)
      cases member <;> rfl
    rw [map_cons, reverse_cons, append_assoc, singleton_append] at records
    exact records_visitMember program decl untyped member records

/-- The layers of all lookups in a program are recorded. -/
theorem Program.recorded_typeLookups (program : Program) :
    ∀ lookup ∈ program.typeLookups, lookup.Recorded := by
  have bound {layer : List Binding} {analysis : Analysis} (decl : ClassDecl)
      (records : Records [layer] analysis.scopes) :
      Records [decl.toBinding :: layer] (declareClass analysis decl).scopes :=
    records.declare _ _ _ _
  have opened : Records [[]] (enter {}).scopes := ⟨rfl, rfl⟩
  have declared := opened.foldl bound program.classes
  rw [append_nil] at declared
  rw [Program.typeLookups, forall_mem_flatten]
  refine forall_mem_along (fun analysis => Records [program.layer] analysis.scopes)
    (fun analysis decl records => ?_) (fun analysis decl records => ?_) program.classes declared
  · exact Records.alike records (alike_visitClass program analysis decl)
  · refine decl.recorded_memberTypeLookups program decl.members ?_
    rw [append_nil]
    exact records_openClass program decl records

/-! ## Comparisons -/

/-- Whether a diagnostic compares the type of a name with another. -/
def Diagnostic.compares (name expected : String) (diagnostic : Diagnostic) : Prop :=
  ∃ found, diagnostic.finding = .typeMismatch name expected found

mutual

/-- An undeclared name is no comparison. -/
theorem Expr.not_compares_undeclared (known : String → Bool) {name expected : String} (expr : Expr) :
    ∀ diagnostic ∈ expr.undeclared known, ¬ diagnostic.compares name expected := by
  cases expr with
  | ident other arguments =>
    rw [undeclared]
    split
    · exact forall_mem_nil _
    · rw [forall_mem_singleton]
      rintro ⟨found, same⟩
      cases same
  | binary op left right =>
    rw [undeclared, forall_mem_append]
    exact ⟨left.not_compares_undeclared known, right.not_compares_undeclared known⟩
  | member target other => exact target.not_compares_undeclared known
  | call callee arguments =>
    rw [undeclared, forall_mem_append]
    exact ⟨callee.not_compares_undeclared known, not_compares_undeclaredList known arguments⟩
  | _ => exact forall_mem_nil _

theorem Expr.not_compares_undeclaredList (known : String → Bool) {name expected : String}
    (exprs : List Expr) :
    ∀ diagnostic ∈ undeclaredList known exprs, ¬ diagnostic.compares name expected := by
  cases exprs with
  | nil => exact forall_mem_nil _
  | cons expr rest =>
    rw [undeclaredList, forall_mem_append]
    exact ⟨expr.not_compares_undeclared known, not_compares_undeclaredList known rest⟩

end

/-- Other findings are no comparisons. -/
theorem Diagnostic.not_compares_of_isAside {name expected : String}
    (aside : diagnostics.all isAside = true) :
    ∀ diagnostic ∈ diagnostics, ¬ diagnostic.compares name expected := by
  rintro ⟨finding, position⟩ mem ⟨found, same⟩
  have other := all_eq_true.mp aside _ mem
  cases same
  cases other

namespace Analysis

/-- Every comparison that a part of an analysis adds is with a type that was looked up. -/
def Compares (lookups : List TypeLookup) (before after : Analysis) : Prop :=
  ∀ name expected, ∀ diagnostic ∈ after.diagnostics, diagnostic.compares name expected →
    diagnostic ∈ before.diagnostics ∨
      ∃ lookup ∈ lookups, lookup.name = name ∧ lookup.scopes.typeOf name = some expected

variable {lookups further : List TypeLookup} {before between after : Analysis}

/-- Comparisons in two parts. -/
theorem Compares.trans (first : Compares lookups before between)
    (second : Compares further between after) : Compares (lookups ++ further) before after := by
  intro name expected diagnostic mem compares
  rcases second name expected diagnostic mem compares with old | ⟨lookup, owned, facts⟩
  · rcases first name expected diagnostic old compares with old | ⟨lookup, owned, facts⟩
    · exact .inl old
    · exact .inr ⟨lookup, mem_append_left _ owned, facts⟩
  · exact .inr ⟨lookup, mem_append_right _ owned, facts⟩

/-- A part without comparisons may have made any lookups. -/
theorem Compares.of_none (compares : Compares [] before after) (lookups : List TypeLookup) :
    Compares lookups before after := by
  intro name expected diagnostic mem same
  rcases compares name expected diagnostic mem same with old | ⟨lookup, owned, -⟩
  · exact .inl old
  · cases owned

theorem Compares.within {part : Analysis → Analysis}
    (compares : Compares lookups before.enter (part before.enter)) :
    Compares lookups before (before.within part) := compares

theorem Compares.of_diagnostics (same : after.diagnostics = before.diagnostics) :
    Compares [] before after :=
  fun _ _ _ mem _ => .inl (same ▸ mem)

/-- A report without comparisons. -/
theorem compares_reportAll (analysis : Analysis)
    (silent : ∀ name expected, ∀ diagnostic ∈ diagnostics, ¬ diagnostic.compares name expected) :
    Compares [] analysis (analysis.reportAll diagnostics) := by
  intro name expected diagnostic mem compares
  rcases mem_append.mp mem with old | new
  · exact .inl old
  · exact (silent name expected diagnostic new compares).elim

theorem compares_reportAll_of_isAside (analysis : Analysis)
    (aside : diagnostics.all Diagnostic.isAside = true) :
    Compares [] analysis (analysis.reportAll diagnostics) :=
  analysis.compares_reportAll fun _ _ => Diagnostic.not_compares_of_isAside aside

theorem compares_visit (analysis : Analysis) (place : Place) (expr : Expr) :
    Compares [] analysis (analysis.visit place expr) :=
  analysis.compares_reportAll fun _ _ => expr.not_compares_undeclared _

/-- A declaration compares nothing. -/
theorem compares_declare (analysis : Analysis) (name : String) (role : Role) (position : Position)
    (duplicate : Finding) (aside : Diagnostic.isAside ⟨duplicate, position⟩ = true) :
    Compares [] analysis (analysis.declare name role position duplicate) := by
  unfold declare
  split
  · exact .of_diagnostics rfl
  · rw [report_eq_reportAll]
    exact analysis.compares_reportAll_of_isAside (by simp [aside])

theorem compares_recordType? (analysis : Analysis) (path : List String) (name : String)
    (type? : Option String) : Compares [] analysis (analysis.recordType? path name type?) :=
  .of_diagnostics (analysis.diagnostics_recordType? path name type?)

/-- Parts for the elements of a list that compare nothing. -/
theorem Compares.foldl {α : Type} {step : Analysis → α → Analysis}
    (compares : ∀ analysis element, Compares [] analysis (step analysis element))
    (elements : List α) (analysis : Analysis) :
    Compares [] analysis (elements.foldl step analysis) :=
  elements.foldlRecOn step (.of_diagnostics rfl) fun _ compared element _ =>
    compared.trans (compares _ element)

/-- Parts for the elements of a list, with the lookups made in each. -/
theorem Compares.foldl_along {α : Type} {step : Analysis → α → Analysis}
    {observe : Analysis → α → List TypeLookup}
    (compares : ∀ analysis element, Compares (observe analysis element) analysis
      (step analysis element)) (elements : List α) (analysis : Analysis) :
    Compares (along step observe elements analysis).flatten analysis
      (elements.foldl step analysis) := by
  induction elements generalizing analysis with
  | nil => exact .of_diagnostics rfl
  | cons element rest ih => exact (compares analysis element).trans (ih (step analysis element))

/-- A comparison is with the type found for the name. -/
theorem typeOf_of_mem_checkAssigned {name other expected : String} {value : Expr}
    {position : Position} {diagnostic : Diagnostic}
    (mem : diagnostic ∈ analysis.checkAssigned name value position)
    (compares : diagnostic.compares other expected) :
    name = other ∧ analysis.scopes.typeOf other = some expected := by
  obtain ⟨found, same⟩ := compares
  unfold checkAssigned at mem
  split at mem
  · next type found' typed inferred =>
      split at mem
      · cases mem
      · cases mem_singleton.mp mem
        cases same
        exact ⟨rfl, typed⟩
  · cases mem

/-- The comparison of an assignment is with the type of its target. -/
theorem compares_visitAssign (analysis : Analysis) (place : Place) (layers : List (List Binding))
    (target value : Expr) (position : Position) :
    Compares (TypeLookup.each analysis.scopes layers (target.compared value)) analysis
      (analysis.visitAssign place target value position) := by
  have visited := analysis.compares_visit place value
  -- any other target than a plain name is reported and not compared
  have rejected : Compares [] analysis
      ((analysis.visit place value).report .badAssignTarget target.position) := by
    rw [report_eq_reportAll]
    exact visited.trans (compares_reportAll_of_isAside _ rfl)
  cases target with
  | ident name arguments place' =>
    cases arguments with
    | nil =>
      have target := (analysis.visit place value).compares_visit place (.ident name [] place')
      refine (visited.trans target).trans ?_
      intro other expected diagnostic mem compares
      rcases mem_append.mp mem with old | new
      · exact .inl old
      · refine .inr ⟨⟨name, analysis.scopes, layers⟩, mem_cons_self, ?_⟩
        exact typeOf_of_mem_checkAssigned new compares
    | cons argument more => exact rejected
  | _ => exact rejected

end Analysis

mutual

/-- The comparisons in a statement are with types looked up in it. -/
theorem Stmt.compares_analyze (place : Place) (outer : List (List Binding)) (layer : List Binding)
    (stmt : Stmt) (analysis : Analysis) :
    Compares (stmt.typeLookups place outer layer analysis) analysis
      (stmt.analyze place analysis) := by
  cases stmt with
  | declare name init position =>
    have declared := (analysis.compares_visit place init).trans
      (compares_declare _ name .variableRole position (.duplicateVariable name) rfl)
    exact (declared.trans (compares_recordType? _ place.path name _)).of_none _
  | assign target value position =>
    exact analysis.compares_visitAssign place (layer :: outer) target value position
  | branch test body alternative =>
    have tested := (analysis.compares_visit place test).trans
      (compares_reportAll_of_isAside _ (all_isAside_checkBranchTest test))
    have taken := tested.trans (compares_analyzeBlock place (layer :: outer) [] body _).within
    cases alternative with
    | none => exact taken
    | some alternative =>
      exact taken.trans (compares_analyzeBlock place (layer :: outer) [] alternative _).within
  | loop test body position =>
    have tested := (analysis.compares_visit place test).trans
      (compares_reportAll_of_isAside _ (all_isAside_checkLoop test body position))
    exact tested.trans (compares_analyzeBlock { place with insideLoop := true }
      (layer :: outer) [] body _).within
  | ret value =>
    rw [analyze]
    split
    · exact analysis.compares_visit place value
    · rw [report_eq_reportAll]
      exact (analysis.compares_reportAll_of_isAside rfl).trans (compares_visit _ place value)
  | leave =>
    rw [analyze]
    split
    · exact .of_diagnostics rfl
    · rw [report_eq_reportAll]
      exact analysis.compares_reportAll_of_isAside rfl
  | eval value => exact analysis.compares_visit place value

theorem Stmt.compares_analyzeBlock (place : Place) (outer : List (List Binding))
    (layer : List Binding) (block : List Stmt) (analysis : Analysis) :
    Compares (blockTypeLookups place outer layer block analysis) analysis
      (analyzeBlock place block analysis) := by
  cases block with
  | nil => exact .of_diagnostics rfl
  | cons stmt rest =>
    exact (stmt.compares_analyze place outer layer analysis).trans
      (compares_analyzeBlock place outer (stmt.extend outer layer) rest _)

end

namespace Analysis

variable (program : Program) (decl : ClassDecl)

/-- The head of a method compares nothing. -/
theorem compares_visitHead (method : Method) (analysis : Analysis) :
    Compares [] analysis (analysis.visitHead program decl method) := by
  have param (analysis : Analysis) (param : Param) :
      Compares [] analysis (visitParam (insideMethod program decl method) analysis param) :=
    ((analysis.compares_declare param.name .parameterRole param.position
      (.duplicateParameter param.name) rfl).trans
        (compares_reportAll_of_isAside _ (param.type.all_isAside_check program))).trans
          (.of_diagnostics rfl)
  exact ((Compares.foldl param method.params analysis).trans
    (compares_reportAll_of_isAside _ (TypeRef.all_isAside_checkList _ _))).trans
      (compares_reportAll_of_isAside _ (program.all_isAside_checkOverride decl method))

/-- The comparisons in a member are with types looked up in it. -/
theorem compares_visitMember (layers : List (List Binding)) (analysis : Analysis) (member : Member) :
    Compares (member.typeLookups program decl layers analysis) analysis
      (visitMember program decl analysis member) := by
  cases member with
  | field field =>
    have visited := analysis.compares_visit (outsideMethods program decl [decl.name]) field.init
    exact (visited.trans (compares_recordType? _ [decl.name] field.name _)).of_none _
  | method method =>
    rw [visitMember, visitMethod_eq]
    exact Compares.within ((compares_visitHead program decl method analysis.enter).trans
      (compares_analyzeBlock _ layers _ method.body _))

/-- The comparisons in members, and in the statements run for a new object, are with types looked up in
them. -/
theorem compares_visitMembers (members : List Member) (bound : List Binding) (analysis : Analysis) :
    Compares (decl.memberTypeLookups program bound members analysis) analysis
      (visitInit program decl (members.foldl (visitMember program decl) analysis)) := by
  induction members generalizing bound analysis with
  | nil => exact (compares_analyzeBlock _ _ [] decl.init analysis.enter).within
  | cons member later ih =>
    exact (compares_visitMember program decl _ analysis member).trans (ih _ _)

/-- The comparisons in a class are with types looked up in it. -/
theorem compares_visitClass (analysis : Analysis) (decl : ClassDecl) :
    Compares (decl.typeLookups program analysis) analysis (visitClass program analysis decl) := by
  have member (analysis : Analysis) (member : Member) :
      Compares [] analysis (declareMember analysis member) := by
    cases member <;> exact analysis.compares_declare _ _ _ _ rfl
  have opened := (analysis.enter.compares_reportAll_of_isAside
    (program.all_isAside_checkBase decl)).trans (Compares.foldl member decl.members _)
  exact (opened.trans (compares_visitMembers program decl decl.members [] _)).within

end Analysis

/-- The comparisons in a program are with types looked up in it. -/
theorem Program.compares_analyze (program : Program) :
    Compares program.typeLookups {} program.analyze := by
  have declared : Compares [] (enter {}) program.declared :=
    Compares.foldl (fun analysis decl => analysis.compares_declare _ _ _ _ rfl) _ _
  exact (declared.trans (Compares.foldl_along (compares_visitClass program)
    program.classes program.declared)).within

/-- Wherever the analysis looks up the type of a name, the declaration found is that of the text, and the
type found is the latest in the innermost layer that has one. It is missing or that of the declaration
exactly where the layers are faithful. An assignment is compared only with a type that was looked up, and
so with that of the declaration exactly where the layers are faithful. -/
theorem Program.typeOf_typeLookups (program : Program) :
    (∀ lookup ∈ program.typeLookups,
      lookup.scopes.lookup lookup.name =
          (declaring? lookup.layers lookup.name).map declaration ∧
        lookup.scopes.typeOf lookup.name = typeOf lookup.layers lookup.name ∧
        (lookup.scopes.typeOf lookup.name = none ∨
            lookup.scopes.typeOf lookup.name = (declaring? lookup.layers lookup.name).bind type? ↔
          Binding.Faithful lookup.layers lookup.name)) ∧
      ∀ name expected found position,
        ⟨.typeMismatch name expected found, position⟩ ∈ program.analyze.diagnostics →
          ∃ lookup ∈ program.typeLookups, lookup.name = name ∧
            lookup.scopes.typeOf name = some expected ∧
            ((declaring? lookup.layers name).bind type? = some expected ↔
              Binding.Faithful lookup.layers name) := by
  have faithful (lookup : TypeLookup) := typeOf_eq_iff_faithful lookup.layers lookup.name
  refine ⟨fun lookup mem => ?_, fun name expected found position reported => ?_⟩
  · have records : Binding.Records lookup.layers lookup.scopes :=
      program.recorded_typeLookups lookup mem
    rw [records.lookup_eq, records.typeOf_eq]
    exact ⟨rfl, rfl, faithful lookup⟩
  · obtain old | ⟨lookup, mem, rfl, typed⟩ :=
      program.compares_analyze name expected _ reported ⟨found, rfl⟩
    · cases old
    have records : Binding.Records lookup.layers lookup.scopes :=
      program.recorded_typeLookups lookup mem
    refine ⟨lookup, mem, rfl, typed, ?_⟩
    rw [records.typeOf_eq] at typed
    rw [← faithful lookup, typed]
    simp [eq_comm]

/-- A program with a variable in a block that hides one of the method, and an assignment to it. -/
def Program.shadowing (init value : Expr) : Program :=
  let test : Expr := .binary .lt (.int "1" ⟨1, 78⟩) (.int "2" ⟨1, 82⟩) ⟨1, 78⟩
  let block : List Stmt :=
    [.declare "x" init ⟨1, 89⟩, .assign (.ident "x" [] ⟨1, 106⟩) value ⟨1, 106⟩]
  let body : List Stmt := [.declare "x" (.int "1" ⟨1, 73⟩) ⟨1, 65⟩, .branch test block none ⟨1, 75⟩]
  let getter : Method :=
    ⟨"g", [], some ⟨"Boolean", [], ⟨1, 23⟩⟩, [.ret (.bool true ⟨1, 41⟩) ⟨1, 34⟩], ⟨1, 12⟩⟩
  ⟨[⟨"A", none, [], [.method getter, .method ⟨"main", [], none, body, ⟨1, 50⟩⟩], ⟨1, 1⟩⟩]⟩

/-- A variable whose type is known hides the type of the outer variable. -/
theorem Program.typeOf_shadowing_bool :
    ∃ lookup ∈ (shadowing (.bool false ⟨1, 97⟩) (.bool true ⟨1, 111⟩)).typeLookups,
      lookup.name = "x" ∧ lookup.scopes.typeOf "x" = some "Boolean" ∧
        (declaring? lookup.layers "x").bind type? = some "Boolean" ∧
        Binding.Faithful lookup.layers "x" := by
  obtain ⟨lookup, mem, named, found, declared⟩ :
      ∃ lookup ∈ (shadowing (.bool false ⟨1, 97⟩) (.bool true ⟨1, 111⟩)).typeLookups,
        lookup.name = "x" ∧ lookup.scopes.typeOf "x" = some "Boolean" ∧
          (declaring? lookup.layers "x").bind type? = some "Boolean" := by
    decide +kernel
  have faithful := ((typeOf_typeLookups _).1 lookup mem).2.2
  rw [named] at faithful
  exact ⟨lookup, mem, named, found, declared, faithful.mp (.inr (found.trans declared.symm))⟩

/-- A variable whose type cannot be told does not hide the type of the outer variable, and an assignment
to it is compared with that. -/
theorem Program.typeOf_shadowing_call :
    let program := shadowing (.call (.member (.self ⟨1, 97⟩) "g" ⟨1, 97⟩) [] ⟨1, 97⟩)
      (.bool true ⟨1, 111⟩)
    (∃ lookup ∈ program.typeLookups, lookup.name = "x" ∧
      lookup.scopes.lookup "x" = some ⟨.variableRole, ⟨1, 89⟩⟩ ∧
      (declaring? lookup.layers "x").map type? = some none ∧
      lookup.scopes.typeOf "x" = some "Integer") ∧
      program.analyze.diagnostics = [⟨.typeMismatch "x" "Integer" "Boolean", ⟨1, 106⟩⟩] := by
  decide +kernel

end ClassLang
