import ClassLang.Machine.Instruction

/-! # Artifacts

The code of a whole program: for each class its fields and the code of its methods, and the method
where the program starts. -/

namespace ClassLang

/-! ## Labels -/

/-- The labels of code with their indices, in the order of the code; counting starts at `index`. -/
def labelsFrom (index : Nat) : List Instruction → List (Label × Nat)
  | [] => []
  | .label place :: rest => (place, index) :: labelsFrom (index + 1) rest
  | _ :: rest => labelsFrom (index + 1) rest

/-- Of neighbours with the same label, keep the last. -/
def lastOfRuns : List (Label × Nat) → List (Label × Nat)
  | first :: second :: rest =>
    if first.1 = second.1 then lastOfRuns (second :: rest)
    else first :: lastOfRuns (second :: rest)
  | entries => entries

/-- The index of each label of code, sorted by name; of a repeated label the last index counts. -/
def labelTable (code : List Instruction) : List (Label × Nat) :=
  lastOfRuns ((labelsFrom 0 code).mergeSort (fun first second => first.1.name ≤ second.1.name))

/-! ## Methods and classes -/

/-- The code of a method. -/
structure MethodCode where
  /-- The name of the method. -/
  name : String
  /-- The names of its parameters. -/
  params : List String
  /-- The name of the variable in each slot. -/
  slots : List String
  /-- Its instructions. -/
  code : List Instruction
  deriving Repr

/-- The index of each label in the code of a method. -/
def MethodCode.labels (method : MethodCode) : List (Label × Nat) := labelTable method.code

/-- The code of a class. -/
structure ClassCode where
  /-- The name of the class. -/
  name : String
  /-- The name of the class it extends. -/
  base : Option String
  /-- The names of its fields. -/
  fields : List String
  /-- The code of its methods, the one that sets up a new object first. -/
  methods : List MethodCode
  deriving Repr

/-- The code of a program. -/
structure Artifact where
  /-- The code of its classes. -/
  classes : List ClassCode
  /-- The class and the method where it starts, with a point between them. -/
  entry : String
  deriving Repr

namespace Artifact

/-- The code of the first class of a given name. -/
def class? (artifact : Artifact) (name : String) : Option ClassCode :=
  artifact.classes.find? (fun decl => decl.name = name)

/-- The code of the first method of a given name in a class. -/
def method? (artifact : Artifact) (className name : String) : Option MethodCode := do
  (← artifact.class? className).methods.find? (fun method => method.name = name)

end Artifact

end ClassLang
