import ClassLang.Proofs.Analysis.Independence

/-! # Bindings

The analysis keeps the declarations of names and the types found for them in two stacks, and searches
them apart. To say which type belongs to which declaration, the text around a place is read as layers of
bindings, each a declaration together with its type (`Binding`). The two stacks are two views of the
layers (`Binding.Records`), and every step of the analysis keeps them so.

A declaration without a type is in the one view and not in the other, so a lookup finds the type of
another declaration of the name. `Binding.Faithful` says when it does not. -/

namespace ClassLang

open List

variable {later : List Binding}

/-- Blocks leave the scopes around them as they were. -/
theorem Stmt.alike_analyzeBlocks (place : Place) (blocks : List (List Stmt)) (analysis : Analysis) :
    (Stmt.analyzeBlocks place blocks analysis).Alike analysis := by
  induction blocks generalizing analysis with
  | nil => exact .refl analysis
  | cons block more ih =>
    exact (ih _).trans (Stmt.passes_analyzeBlock block place analysis.enter).alike_within

/-! ## Layers of bindings -/

/-- A declaration of a name with the type found for it. -/
structure Binding where
  name : String
  /-- What it is declared as, and where. -/
  declaration : Declaration
  /-- The type found for it. -/
  type? : Option String
  deriving DecidableEq, Repr

namespace Binding

variable {layer : List Binding}

/-- The binding that declares a name in a layer: the first of them, which comes last in the layer. -/
def first? (name : String) (layer : List Binding) : Option Binding :=
  layer.reverse.find? fun binding => binding.name = name

variable (layers : List (List Binding)) (name : String)

/-- The innermost layer that declares a name. -/
def home? : Option (List Binding) :=
  layers.find? fun layer => (first? name layer).isSome

/-- The binding that declares a name: the first in the innermost layer that declares it. -/
def declaring? : Option Binding :=
  (home? layers name).bind (first? name)

/-- The latest type found for a name in a layer. -/
def typeIn (name : String) (layer : List Binding) : Option String :=
  layer.findSome? fun binding => if binding.name = name then binding.type? else none

/-- The type found for a name, in the innermost layer that has one. -/
def typeOf : Option String :=
  layers.findSome? (typeIn name)

/-- The type found for a name is that of its declaration: if the declaration has one, no other type was
found for the name in its layer since; if it has none, no type was found for the name at all. -/
def Faithful : Prop :=
  ∀ home ∈ home? layers name, ∀ declaring ∈ first? name home,
    (∀ type ∈ declaring.type?, typeIn name home = some type) ∧
      (declaring.type? = none →
        ∀ layer ∈ layers, ∀ binding ∈ layer, binding.name = name → binding.type? = none)

/-- The binding that declares a name is the first that is found from inside out. -/
theorem declaring?_eq_findSome? : declaring? layers name = layers.findSome? (first? name) := by
  unfold declaring? home?
  induction layers with
  | nil => rfl
  | cons layer outer ih => cases found : first? name layer <;> simp [found, ih]

theorem first?_eq_none_iff (name : String) (layer : List Binding) :
    first? name layer = none ↔ ∀ binding ∈ layer, binding.name ≠ name := by
  simp [first?, find?_eq_none]

/-- No type was found for a name in a layer if no binding of it has one. -/
theorem typeIn_eq_none_iff (name : String) (layer : List Binding) :
    typeIn name layer = none ↔ ∀ binding ∈ layer, binding.name = name → binding.type? = none := by
  simp [typeIn, findSome?_eq_none_iff]

theorem typeOf_eq_none_iff :
    typeOf layers name = none ↔
      ∀ layer ∈ layers, ∀ binding ∈ layer, binding.name = name → binding.type? = none := by
  simp [typeOf, findSome?_eq_none_iff, typeIn_eq_none_iff]

/-- Layers that do not declare a name have no type for it. -/
theorem typeOf_append_of_first? {name : String} {inner : List (List Binding)}
    (nowhere : ∀ layer ∈ inner, first? name layer = none) (layers : List (List Binding)) :
    typeOf (inner ++ layers) name = typeOf layers name := by
  have untyped : typeOf inner name = none := by
    rw [typeOf_eq_none_iff]
    intro layer mem binding owned named
    exact ((first?_eq_none_iff name layer).mp (nowhere layer mem) binding owned named).elim
  rw [typeOf, findSome?_append, ← typeOf, untyped]
  rfl

/-- A declaration with a type is a reason to find one in its layer. -/
theorem exists_typeIn {name type : String} {declaring : Binding}
    (found : first? name layer = some declaring) (typed : declaring.type? = some type) :
    ∃ latest, typeIn name layer = some latest := by
  have named : declaring.name = name := by simpa using find?_some found
  have mem : declaring ∈ layer := mem_reverse.mp (mem_of_find?_eq_some found)
  refine Option.ne_none_iff_exists'.mp fun missing => ?_
  rw [(typeIn_eq_none_iff name layer).mp missing declaring mem named] at typed
  cases typed

/-- A lookup finds no type or the type of the declaration exactly if the layers are faithful. -/
theorem typeOf_eq_iff_faithful :
    (typeOf layers name = none ∨ typeOf layers name = (declaring? layers name).bind type?) ↔
      Faithful layers name := by
  cases atHome : home? layers name with
  | none =>
    -- a name that is not declared has no type, and nothing has to be said about it
    have nowhere : ∀ layer ∈ layers, first? name layer = none := by
      simpa [home?] using atHome
    have untyped : typeOf layers name = none := by
      simpa [typeOf] using typeOf_append_of_first? nowhere []
    simp [Faithful, atHome, untyped]
  | some home =>
    obtain ⟨declared, inner, outer, split, nowhere⟩ := find?_eq_some_iff_append.mp atHome
    obtain ⟨declaring, found⟩ := Option.isSome_iff_exists.mp declared
    have value : typeOf layers name = (typeIn name home).or (typeOf outer name) := by
      rw [split, typeOf_append_of_first? (by simpa using nowhere), typeOf, findSome?_cons]
      cases typeIn name home <;> rfl
    have faithful : Faithful layers name ↔
        (∀ type ∈ declaring.type?, typeIn name home = some type) ∧
          (declaring.type? = none → typeOf layers name = none) := by
      simp [Faithful, atHome, found, typeOf_eq_none_iff]
    rw [faithful, declaring?, atHome, Option.bind_some, found, Option.bind_some]
    cases typed : declaring.type? with
    | none => simp
    | some type =>
      -- the layer of the declaration has a type, so the search ends there
      obtain ⟨latest, latestIn⟩ := exists_typeIn found typed
      simp [value, latestIn]

/-! ## Two views of the layers -/

/-- The declarations that are accepted in a layer: a name that is taken is not declared again. -/
def accepted : List Binding → List (String × Declaration)
  | [] => []
  | binding :: earlier =>
    if ((accepted earlier).lookup binding.name).isSome then accepted earlier
    else (binding.name, binding.declaration) :: accepted earlier

/-- The types found in a layer, the latest first. -/
def foundTypes (layer : List Binding) : List (String × String) :=
  layer.filterMap fun binding => binding.type?.map (Prod.mk binding.name)

/-- Scopes hold the declarations accepted in some layers and the types found in them. -/
structure Records (layers : List (List Binding)) (scopes : Scopes) : Prop where
  declarations : scopes.declarations = layers.map accepted
  types : scopes.types = layers.map foundTypes

/-- The types found in a layer whose latest bindings have none. -/
theorem foundTypes_append (untyped : ∀ binding ∈ later, binding.type? = none) (binding : Binding)
    (layer : List Binding) :
    foundTypes (later ++ binding :: layer) =
      binding.type?.toList.map (Prod.mk binding.name) ++ foundTypes layer := by
  have nothing : foundTypes later = [] := by
    simpa [foundTypes, filterMap_eq_nil_iff] using untyped
  rw [foundTypes, filterMap_append, ← foundTypes, nothing, filterMap_cons]
  cases binding.type? <;> rfl

/-- What is accepted does not depend on types. -/
theorem accepted_congr {one two : List Binding}
    (same : one.map (fun binding => (binding.name, binding.declaration)) =
      two.map fun binding => (binding.name, binding.declaration)) : accepted one = accepted two := by
  induction one generalizing two with
  | nil => cases two with
    | nil => rfl
    | cons binding earlier => cases same
  | cons binding earlier ih => cases two with
    | nil => cases same
    | cons other rest =>
      obtain ⟨⟨names, declarations⟩, rest⟩ := by simpa using same
      rw [accepted, accepted, ih (by simpa using rest), names, declarations]

/-- The declaration of a name that is accepted in a layer is the first. -/
theorem lookup_accepted (name : String) (layer : List Binding) :
    (accepted layer).lookup name = (first? name layer).map declaration := by
  induction layer with
  | nil => rfl
  | cons binding earlier ih =>
    have first : first? name (binding :: earlier) =
        (first? name earlier).or (if binding.name = name then some binding else none) := by
      simp [first?, find?_append, find?_singleton]
    rw [accepted, first]
    by_cases named : binding.name = name
    · rw [named, ih]
      cases found : first? name earlier <;> simp [ih, found]
    · have other : (name == binding.name) = false := by simpa using Ne.symm named
      rw [if_neg named, Option.or_none, ← ih]
      split
      · rfl
      · rw [lookup_cons, other]

/-- The type of a name among the types found in a layer is the latest. -/
theorem lookup_foundTypes (name : String) (layer : List Binding) :
    (foundTypes layer).lookup name = typeIn name layer := by
  induction layer with
  | nil => rfl
  | cons binding earlier ih =>
    rw [foundTypes, typeIn, findSome?_cons, ← typeIn]
    cases typed : binding.type? with
    | none => simpa [foundTypes, typed] using ih
    | some type =>
      by_cases named : binding.name = name
      · simp [typed, named]
      · have other : (name == binding.name) = false := by simpa using Ne.symm named
        simpa [foundTypes, typed, named, lookup_cons, other] using ih

namespace Records

variable {layers outer : List (List Binding)} {scopes : Scopes} {analysis : Analysis}

theorem lookup_eq (records : Records layers scopes) (name : String) :
    scopes.lookup name = (declaring? layers name).map declaration := by
  rw [Scopes.lookup, records.declarations, declaring?_eq_findSome?, findSome?_map, map_findSome?]
  exact congrArg (findSome? · layers) (funext fun layer => lookup_accepted name layer)

theorem typeOf_eq (records : Records layers scopes) : scopes.typeOf = typeOf layers := by
  funext name
  rw [Scopes.typeOf, records.types, findSome?_map, typeOf]
  exact congrArg (findSome? · layers) (funext fun layer => lookup_foundTypes name layer)

theorem enter (records : Records layers analysis.scopes) :
    Records ([] :: layers) analysis.enter.scopes :=
  ⟨congrArg (cons []) records.declarations, congrArg (cons []) records.types⟩

theorem alike {one two : Analysis} (records : Records layers two.scopes) (alike : one.Alike two) :
    Records layers one.scopes :=
  ⟨alike.declarations.trans records.declarations, alike.types.trans records.types⟩

/-- A declaration is a binding without a type. -/
theorem declare (records : Records (layer :: outer) analysis.scopes) (name : String) (role : Role)
    (position : Position) (duplicate : Finding) :
    Records ((⟨name, ⟨role, position⟩, none⟩ :: layer) :: outer)
      (analysis.declare name role position duplicate).scopes := by
  have scopes : analysis.scopes.declarations = accepted layer :: outer.map accepted :=
    records.declarations
  have types : analysis.scopes.types = foundTypes layer :: outer.map foundTypes := records.types
  simp only [Analysis.declare, Scopes.declare?, scopes]
  by_cases taken : ((accepted layer).lookup name).isSome = true
  · simp only [if_pos taken]
    refine ⟨?_, types⟩
    rw [map_cons, accepted, if_pos taken]
    exact scopes
  · simp only [if_neg taken]
    refine ⟨?_, types⟩
    rw [map_cons, accepted, if_neg taken]

/-- A type is recorded for a binding that has none, behind which none has one. -/
theorem recordType? {name : String} {declaration : Declaration}
    (records : Records ((later ++ ⟨name, declaration, none⟩ :: layer) :: outer) analysis.scopes)
    (untyped : ∀ binding ∈ later, binding.type? = none) (path : List String) (type? : Option String) :
    Records ((later ++ ⟨name, declaration, type?⟩ :: layer) :: outer)
      (analysis.recordType? path name type?).scopes := by
  cases type? with
  | none => exact records
  | some type =>
    have types : analysis.scopes.types = foundTypes layer :: outer.map foundTypes := by
      rw [records.types, map_cons, foundTypes_append untyped]
      rfl
    constructor
    · rw [Analysis.recordType?, Analysis.recordType, Scopes.setType, types]
      refine records.declarations.trans ?_
      rw [map_cons, map_cons, accepted_congr]
      simp
    · rw [Analysis.recordType?, Analysis.recordType, Scopes.setType, types, map_cons,
        foundTypes_append untyped]
      rfl

/-- Declarations in turn, each a binding of its own. -/
theorem foldl {α : Type} {step : Analysis → α → Analysis} {bindingOf : α → Binding}
    (one : ∀ {layer : List Binding} {analysis : Analysis} (element : α),
      Records (layer :: outer) analysis.scopes →
        Records ((bindingOf element :: layer) :: outer) (step analysis element).scopes)
    (elements : List α) (records : Records (layer :: outer) analysis.scopes) :
    Records (((elements.map bindingOf).reverse ++ layer) :: outer)
      (elements.foldl step analysis).scopes := by
  induction elements generalizing layer analysis with
  | nil => exact records
  | cons element rest ih => simpa using ih (one element records)

end Records

/-- Bindings without a type make no difference to the types that are found. -/
theorem typeOf_append (untyped : ∀ binding ∈ later, binding.type? = none) (layer : List Binding)
    (outer : List (List Binding)) :
    typeOf ((later ++ layer) :: outer) = typeOf (layer :: outer) := by
  funext name
  have nothing : typeIn name later = none := by
    rw [typeIn_eq_none_iff]
    exact fun binding mem _ => untyped binding mem
  have same : typeIn name (later ++ layer) = typeIn name layer := by
    rw [typeIn, findSome?_append, ← typeIn, nothing]
    rfl
  rw [typeOf, findSome?_cons, same, typeOf, findSome?_cons]

end Binding

/-! ## Bindings in the text -/

/-- The binding of a class. -/
def ClassDecl.toBinding (decl : ClassDecl) : Binding :=
  ⟨decl.name, ⟨.classRole, decl.position⟩, none⟩

/-- The bindings of the classes of a program. -/
def Program.layer (program : Program) : List Binding :=
  (program.classes.map ClassDecl.toBinding).reverse

/-- The binding of a member with a type. -/
def Member.toBinding (type? : Option String) : Member → Binding
  | .field decl => ⟨decl.name, ⟨.variableRole, decl.position⟩, type?⟩
  | .method decl => ⟨decl.name, ⟨.methodRole, decl.position⟩, type?⟩

/-- The type of a member: a field has that of its initial value. -/
def Member.typeIn (layers : List (List Binding)) : Member → Option String
  | .field decl => decl.init.infer (Binding.typeOf layers)
  | .method _ => none

/-- The binding of a parameter. -/
def Param.toBinding (param : Param) : Binding :=
  ⟨param.name, ⟨.parameterRole, param.position⟩, some param.type.source⟩

/-- The bindings of a block behind a statement. A variable has the type of its initial value. -/
def Stmt.extend (outer : List (List Binding)) (layer : List Binding) : Stmt → List Binding
  | .declare name init position =>
    ⟨name, ⟨.variableRole, position⟩, init.infer (Binding.typeOf (layer :: outer))⟩ :: layer
  | _ => layer

namespace Stmt

variable {layer : List Binding} {outer : List (List Binding)} {analysis : Analysis}

variable (records : Binding.Records (layer :: outer) analysis.scopes)

include records

/-- The variable of a statement is recorded with the type of its initial value. -/
theorem records_declareIn (place : Place) (stmt : Stmt) :
    Binding.Records (stmt.extend outer layer :: outer) (stmt.declareIn place analysis).scopes := by
  cases stmt with
  | declare name init position =>
    have declared := records.declare name .variableRole position (.duplicateVariable name)
    have types : Binding.typeOf ((⟨name, ⟨.variableRole, position⟩, none⟩ :: layer) :: outer) =
        Binding.typeOf (layer :: outer) :=
      Binding.typeOf_append (forall_mem_singleton.mpr rfl) layer outer
    -- the type is inferred behind the declaration, which has no type yet and so hides none
    rw [declareIn, extend, Analysis.infer, declared.typeOf_eq, types]
    exact Binding.Records.recordType? (nil_append _ ▸ declared) (forall_mem_nil _) _ _
  | _ => exact records

/-- Behind a statement its variable is recorded. -/
theorem records_analyze (place : Place) (stmt : Stmt) :
    Binding.Records (stmt.extend outer layer :: outer) (stmt.analyze place analysis).scopes := by
  rw [analyze_eq]
  have reported : Binding.Records (layer :: outer)
      (analysis.reportAll (stmt.findings place analysis)).scopes := records
  exact (records_declareIn reported place stmt).alike (alike_analyzeBlocks _ _ _)

end Stmt

namespace Analysis

variable (program : Program) (decl : ClassDecl) {layer : List Binding} {outer : List (List Binding)}
  {analysis : Analysis}

/-- The parameters of a method are recorded with their types. -/
theorem records_visitHead (method : Method)
    (records : Binding.Records (layer :: outer) analysis.scopes) :
    Binding.Records (((method.params.map Param.toBinding).reverse ++ layer) :: outer)
      (analysis.visitHead program decl method).scopes := by
  have param {layer : List Binding} {analysis : Analysis} (param : Param)
      (records : Binding.Records (layer :: outer) analysis.scopes) :
      Binding.Records ((param.toBinding :: layer) :: outer)
        (visitParam (insideMethod program decl method) analysis param).scopes := by
    have declared := records.declare param.name .parameterRole param.position
      (.duplicateParameter param.name)
    have checked : Binding.Records _ ((analysis.declare param.name .parameterRole param.position
      (.duplicateParameter param.name)).reportAll (param.type.check program)).scopes := declared
    exact Binding.Records.recordType? (nil_append _ ▸ checked) (forall_mem_nil _)
      [decl.name, method.name] (some param.type.source)
  exact records.foldl param method.params

/-- The members of a class are recorded without types when it is opened. -/
theorem records_openClass (records : Binding.Records outer analysis.scopes) :
    Binding.Records ((decl.members.map (Member.toBinding none)).reverse :: outer)
      (analysis.openClass program decl).scopes := by
  have based : Binding.Records ([] :: outer)
      (analysis.enter.reportAll (program.checkBase decl)).scopes := records.enter
  have member {layer : List Binding} {analysis : Analysis} (member : Member)
      (records : Binding.Records (layer :: outer) analysis.scopes) :
      Binding.Records ((member.toBinding none :: layer) :: outer)
        (declareMember analysis member).scopes := by
    cases member <;> exact records.declare _ _ _ _
  have members := based.foldl member decl.members
  rw [append_nil] at members
  exact members

/-- A member is recorded with its type when it is analysed, before the members behind it. -/
theorem records_visitMember (untyped : ∀ binding ∈ later, binding.type? = none) (member : Member)
    (records : Binding.Records ((later ++ member.toBinding none :: layer) :: outer) analysis.scopes) :
    Binding.Records ((later ++ member.toBinding (member.typeIn (layer :: outer)) :: layer) :: outer)
      (visitMember program decl analysis member).scopes := by
  cases member with
  | method method => exact records.alike (alike_visitMethod program decl method analysis)
  | field field =>
    let visited := analysis.visit (outsideMethods program decl [decl.name]) field.init
    have unchanged : Binding.Records
        ((later ++ (Member.field field).toBinding none :: layer) :: outer) visited.scopes := records
    have inferred : visited.infer field.init =
        field.init.infer (Binding.typeOf (layer :: outer)) := by
      rw [infer, unchanged.typeOf_eq, Binding.typeOf_append untyped]
      exact congrArg (Expr.infer · field.init)
        (Binding.typeOf_append (forall_mem_singleton.mpr rfl) layer outer)
    have recorded := unchanged.recordType? untyped [decl.name] (visited.infer field.init)
    rw [inferred] at recorded
    change Binding.Records _ (visited.recordType? [decl.name] field.name
      (visited.infer field.init)).scopes
    rw [inferred]
    exact recorded

end Analysis

end ClassLang
