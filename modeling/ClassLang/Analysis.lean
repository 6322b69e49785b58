import ClassLang.Analysis.Diagnostic
import ClassLang.Analysis.Scopes
import ClassLang.Builtin
import ClassLang.Hierarchy
import ClassLang.Syntax.Source

/-! # Analysis

The analysis walks over a program in the order of its text and collects diagnostics. It opens and
closes a scope for the program, for each class, each method and each block, and infers the types of
literals, of names with a known type and of the operations on them. -/

namespace ClassLang

/-! ## What an analysis collects -/

/-- Set the value of a key: a known key keeps its place, a new one comes last. -/
def putEntry (key value : String) : List (String × String) → List (String × String)
  | [] => [(key, value)]
  | entry :: rest =>
    if entry.1 = key then (key, value) :: rest else entry :: putEntry key value rest

/-- The state of an analysis, and its result. -/
structure Analysis where
  /-- The open scopes, and the counts of those opened and closed. -/
  scopes : Scopes := {}
  /-- The diagnostics in the order in which they were found. -/
  diagnostics : List Diagnostic := []
  /-- The types found, by qualified name. -/
  annotations : List (String × String) := []
  deriving DecidableEq, Repr

namespace Analysis

variable (analysis : Analysis)

/-- Add a finding about a place. -/
def report (finding : Finding) (position : Position) : Analysis :=
  { analysis with diagnostics := analysis.diagnostics ++ [⟨finding, position⟩] }

/-- Add diagnostics. -/
def reportAll (diagnostics : List Diagnostic) : Analysis :=
  { analysis with diagnostics := analysis.diagnostics ++ diagnostics }

/-- Run a part of the analysis in a scope of its own. -/
def within (part : Analysis → Analysis) (analysis : Analysis) : Analysis :=
  let inner := part { analysis with scopes := analysis.scopes.enter }
  { inner with scopes := inner.scopes.exit }

/-- Declare a name in the innermost scope, or report that it is taken. -/
def declare (name : String) (role : Role) (position : Position) (duplicate : Finding) :
    Analysis :=
  match analysis.scopes.declare? name ⟨role, position⟩ with
  | some scopes => { analysis with scopes := scopes }
  | none => analysis.report duplicate position

/-- Record the type of a name that lies on a path. -/
def recordType (path : List String) (name type : String) : Analysis :=
  { analysis with
    scopes := analysis.scopes.setType name type
    annotations := putEntry (".".intercalate (path ++ [name])) type analysis.annotations }

/-- Record the type of a name that lies on a path, if there is one. -/
def recordType? (path : List String) (name : String) : Option String → Analysis
  | some type => analysis.recordType path name type
  | none => analysis

/-- Whether nothing was found. -/
def isClean : Bool := analysis.diagnostics.isEmpty

/-- The diagnostics that are errors. -/
def errors : List Diagnostic :=
  analysis.diagnostics.filter (fun diagnostic => diagnostic.severity = .error)

/-- What is said of all diagnostics. -/
def messages : List String := analysis.diagnostics.map Diagnostic.located

end Analysis

/-! ## Expressions -/

mutual

/-- The names in an expression that are not known, with their places. -/
def Expr.undeclared (known : String → Bool) : Expr → List Diagnostic
  | .ident name _ position => if known name then [] else [⟨.undeclared name, position⟩]
  | .binary _ left right _ => left.undeclared known ++ right.undeclared known
  | .member target _ _ => target.undeclared known
  | .call callee arguments _ => callee.undeclared known ++ Expr.undeclaredList known arguments
  | _ => []

/-- The names in expressions that are not known, with their places. -/
def Expr.undeclaredList (known : String → Bool) : List Expr → List Diagnostic
  | [] => []
  | expr :: rest => expr.undeclared known ++ Expr.undeclaredList known rest

end

/-- The type of an arithmetic operation: real if an operand is, integer if both are. -/
def arithmeticType (left right : Option String) : Option String :=
  let integer := BuiltinType.integer.name
  let real := BuiltinType.real.name
  if left = some real ∨ right = some real then some real
  else if left = some integer ∧ right = some integer then some integer
  else none

/-- The type of an expression, given the types of names; there is none where it cannot be told. -/
def Expr.infer (typeOf : String → Option String) : Expr → Option String
  | .int _ _ => some BuiltinType.integer.name
  | .real _ _ => some BuiltinType.real.name
  | .bool _ _ => some BuiltinType.boolean.name
  | .ident name _ _ => typeOf name
  | .binary op left right _ =>
    let leftType := left.infer typeOf
    let rightType := right.infer typeOf
    if op.isComparison then
      if leftType.isSome && rightType.isSome then some BuiltinType.boolean.name else none
    else arithmeticType leftType rightType
  | _ => none

/-! ## Types and classes -/

/-- What is wrong with applying a type that takes no types. -/
def TypeRef.checkUnapplied (type : TypeRef) : List Diagnostic :=
  if type.arguments.isEmpty then [] else [⟨.extraTypeArguments type.name, type.position⟩]

mutual

/-- What is wrong with a type: it must be built in or a class, and be applied to as many types as it
takes. -/
def TypeRef.check (program : Program) : TypeRef → List Diagnostic
  | ⟨name, arguments, position⟩ =>
    match BuiltinType.ofName? name with
    | some builtin =>
      if 0 < builtin.arity then
        (if arguments.length = builtin.arity then []
          else [⟨.missingTypeArgument name, position⟩]) ++
          TypeRef.checkList program arguments
      else TypeRef.checkUnapplied ⟨name, arguments, position⟩
    | none =>
      if (program.class? name).isSome then TypeRef.checkUnapplied ⟨name, arguments, position⟩
      else [⟨.unknownType name, position⟩]

/-- What is wrong with types. -/
def TypeRef.checkList (program : Program) : List TypeRef → List Diagnostic
  | [] => []
  | type :: rest => type.check program ++ TypeRef.checkList program rest

end

/-- What is wrong with the base of a class. -/
def Program.checkBase (program : Program) (decl : ClassDecl) : List Diagnostic :=
  match decl.base with
  | none => []
  | some base =>
    if base = decl.name then [⟨.extendsItself decl.name, decl.position⟩]
    else if (program.class? base).isNone then [⟨.baseNotFound base, decl.position⟩]
    else if program.inCycle decl then [⟨.cyclicInheritance decl.name, decl.position⟩]
    else []

/-- What is wrong with a method that overrides another. -/
def Program.checkOverride (program : Program) (decl : ClassDecl) (method : Method) :
    List Diagnostic :=
  match program.overridden? decl method.name with
  | some base =>
    if base.sameSignature method then []
    else [⟨.differentSignature method.name, method.position⟩]
  | none => []

/-! ## Statements -/

mutual

/-- Whether a statement is or contains an exit from a loop, at any depth. -/
def Stmt.containsBreak : Stmt → Bool
  | .leave _ => true
  | .branch _ body none _ => Stmt.blockContainsBreak body
  | .branch _ body (some alternative) _ =>
    Stmt.blockContainsBreak body || Stmt.blockContainsBreak alternative
  | .loop _ body _ => Stmt.blockContainsBreak body
  | _ => false

/-- Whether a block contains an exit from a loop, at any depth. -/
def Stmt.blockContainsBreak : List Stmt → Bool
  | [] => false
  | stmt :: rest => stmt.containsBreak || Stmt.blockContainsBreak rest

end

/-- What is dubious about the test of a branch. -/
def checkBranchTest (test : Expr) : List Diagnostic :=
  match test.asBool? with
  | some true => [⟨.alwaysTrue, test.position⟩]
  | some false => [⟨.alwaysFalse, test.position⟩]
  | none => []

/-- What is dubious about a loop. -/
def checkLoop (test : Expr) (body : List Stmt) (position : Position) : List Diagnostic :=
  (if body.isEmpty then [⟨.emptyLoop, position⟩] else []) ++
    match test.asBool? with
    | some true => if Stmt.blockContainsBreak body then [] else [⟨.infiniteLoop, position⟩]
    | some false => [⟨.loopNeverRuns, position⟩]
    | none => []

/-- Where a statement stands. -/
structure Place where
  /-- The whole program. -/
  program : Program
  /-- The class around the statement. -/
  decl : ClassDecl
  /-- The names that qualify the variables declared there. -/
  path : List String
  /-- Whether a method is around the statement. -/
  insideMethod : Bool
  /-- Whether a loop is around the statement. -/
  insideLoop : Bool

/-- Whether a name means something at a place: it is declared in an open scope, built in or
inherited. -/
def Place.knows (place : Place) (scopes : Scopes) (name : String) : Bool :=
  (scopes.lookup name).isSome || (BuiltinType.ofName? name).isSome || name = writeRoutine ||
    place.program.inherits place.decl name

namespace Analysis

/-- Report the names in an expression that mean nothing. -/
def visit (place : Place) (expr : Expr) (analysis : Analysis) : Analysis :=
  analysis.reportAll (expr.undeclared (place.knows analysis.scopes))

/-- The type of an expression in the open scopes. -/
def infer (analysis : Analysis) (expr : Expr) : Option String :=
  expr.infer analysis.scopes.typeOf

/-- What is wrong with the types of an assignment to a name. -/
def checkAssigned (analysis : Analysis) (name : String) (value : Expr) (position : Position) :
    List Diagnostic :=
  match analysis.scopes.typeOf name, analysis.infer value with
  | some expected, some found =>
    if expected = found then [] else [⟨.typeMismatch name expected found, position⟩]
  | _, _ => []

/-- Analyse an assignment: its target must be a plain name. -/
def visitAssign (place : Place) (target value : Expr) (position : Position)
    (analysis : Analysis) : Analysis :=
  let analysis := analysis.visit place value
  match target with
  | .ident name [] _ =>
    let analysis := analysis.visit place target
    analysis.reportAll (analysis.checkAssigned name value position)
  | _ => analysis.report .badAssignTarget target.position

/-- Analyse the declaration of a variable. Its initial value comes before it is declared. -/
def visitDeclare (place : Place) (name : String) (init : Expr) (position : Position)
    (analysis : Analysis) : Analysis :=
  let analysis := analysis.visit place init
  let analysis := analysis.declare name .variableRole position (.duplicateVariable name)
  analysis.recordType? place.path name (analysis.infer init)

end Analysis

mutual

/-- Analyse a statement. -/
def Stmt.analyze (place : Place) : Stmt → Analysis → Analysis
  | .declare name init position, analysis => analysis.visitDeclare place name init position
  | .assign target value position, analysis => analysis.visitAssign place target value position
  | .branch test body none _, analysis =>
    ((analysis.visit place test).reportAll (checkBranchTest test)).within
      (Stmt.analyzeBlock place body)
  | .branch test body (some alternative) _, analysis =>
    (((analysis.visit place test).reportAll (checkBranchTest test)).within
      (Stmt.analyzeBlock place body)).within
      (Stmt.analyzeBlock place alternative)
  | .loop test body position, analysis =>
    ((analysis.visit place test).reportAll (checkLoop test body position)).within
      (Stmt.analyzeBlock { place with insideLoop := true } body)
  | .ret value position, analysis =>
    let analysis :=
      if place.insideMethod then analysis else analysis.report .returnOutsideMethod position
    analysis.visit place value
  | .leave position, analysis =>
    if place.insideLoop then analysis else analysis.report .breakOutsideLoop position
  | .eval value _, analysis => analysis.visit place value

/-- Analyse statements in order. -/
def Stmt.analyzeBlock (place : Place) : List Stmt → Analysis → Analysis
  | [], analysis => analysis
  | stmt :: rest, analysis => Stmt.analyzeBlock place rest (stmt.analyze place analysis)

end

/-! ## Declarations -/

namespace Analysis

/-- Analyse a parameter. -/
def visitParam (place : Place) (analysis : Analysis) (param : Param) : Analysis :=
  let analysis :=
    analysis.declare param.name .parameterRole param.position (.duplicateParameter param.name)
  let analysis := analysis.reportAll (param.type.check place.program)
  analysis.recordType place.path param.name param.type.source

variable (program : Program)

/-- Analyse a method in a scope of its own, which its parameters and its body share. -/
def visitMethod (decl : ClassDecl) (method : Method) (analysis : Analysis) : Analysis :=
  let place : Place :=
    { program := program
      decl := decl
      path := [decl.name, method.name]
      insideMethod := true
      insideLoop := false }
  analysis.within fun analysis =>
    let analysis := method.params.foldl (visitParam place) analysis
    let analysis := analysis.reportAll (TypeRef.checkList program method.result.toList)
    let analysis := analysis.reportAll (program.checkOverride decl method)
    Stmt.analyzeBlock place method.body analysis

/-- Declare a member of a class. -/
def declareMember (analysis : Analysis) : Member → Analysis
  | .field field =>
    analysis.declare field.name .variableRole field.position (.duplicateField field.name)
  | .method method =>
    analysis.declare method.name .methodRole method.position (.duplicateMethod method.name)

/-- Where the initial values of fields and the statements run for a new object stand. -/
def outsideMethods (decl : ClassDecl) (path : List String) : Place :=
  { program := program
    decl := decl
    path := path
    insideMethod := false
    insideLoop := false }

/-- Analyse a member of a class. -/
def visitMember (decl : ClassDecl) (analysis : Analysis) : Member → Analysis
  | .field field =>
    let place := outsideMethods program decl [decl.name]
    let analysis := analysis.visit place field.init
    analysis.recordType? place.path field.name (analysis.infer field.init)
  | .method method => analysis.visitMethod program decl method

/-- Analyse a class: its base, then its members, which see one another, then the statements run for
a new object. -/
def visitClass (analysis : Analysis) (decl : ClassDecl) : Analysis :=
  analysis.within fun analysis =>
    let analysis := analysis.reportAll (program.checkBase decl)
    let analysis := decl.members.foldl declareMember analysis
    let analysis := decl.members.foldl (visitMember program decl) analysis
    analysis.within (Stmt.analyzeBlock (outsideMethods program decl [decl.name, "this"]) decl.init)

/-- Declare a class. -/
def declareClass (analysis : Analysis) (decl : ClassDecl) : Analysis :=
  analysis.declare decl.name .classRole decl.position (.duplicateClass decl.name)

end Analysis

/-- Analyse a program: the names of all classes are declared first. -/
def Program.analyze (program : Program) : Analysis :=
  Analysis.within
    (fun analysis =>
      program.classes.foldl (Analysis.visitClass program)
        (program.classes.foldl Analysis.declareClass analysis))
    {}

end ClassLang
