import ClassLang.Build
import ClassLang.Proofs.Analysis.Clean
import ClassLang.Proofs.Lowering.Simplified

/-! # Where programs start

A program starts at its first entry method, and one without an entry method in a class that is added
to its own. The classes of a program that is built have different names, but the name of the added
class may be taken: then the program starts in the class that took it. -/

namespace ClassLang

open List

/-! ## Code that is found by name -/

/-- What is found first in a list is related to what is found first in a list related to it in
order. -/
theorem exists_find?_of_forall₂ {α β : Type} {relation : α → β → Prop} {first : List α}
    {second : List β} (all : List.Forall₂ relation first second) {test : α → Bool} {test' : β → Bool}
    (agree : ∀ item other, relation item other → test item = test' other) {item : α}
    (found : first.find? test = some item) :
    ∃ other, second.find? test' = some other ∧ relation item other := by
  induction all with
  | nil => cases found
  | @cons head head' rest rest' here _ ih =>
    rw [find?_cons] at found ⊢
    rw [← agree head head' here]
    cases passed : test head with
    | true =>
      rw [passed] at found
      cases found
      exact ⟨head', rfl, here⟩
    | false =>
      rw [passed] at found
      exact ih found

section Found

variable {program : Program} {decl : ClassDecl}

theorem ClassDecl.LowersTo.name_eq {code : ClassCode} (lowers : decl.LowersTo program code) :
    code.name = decl.name :=
  congrArg ClassInterface.name lowers.interface_eq

theorem Method.LowersTo.name_eq {method : Method} {code : MethodCode}
    (lowers : method.LowersTo program decl code) : code.name = method.name := by
  obtain ⟨_, _, _, _, rfl⟩ := lowers.exists_body
  rfl

theorem names_eq_of_lower {classes : List ClassDecl} {codes : List ClassCode}
    (lower : List.Forall₂ (ClassDecl.LowersTo program) classes codes) :
    codes.map ClassCode.name = classes.map ClassDecl.name := by
  have shown := congrArg (map ClassInterface.name) (interfaces_eq lower)
  rwa [map_map, map_map] at shown

/-- The first code of a name is that of the first class of the name. -/
theorem exists_code_of_class? {codes : List ClassCode}
    (lower : List.Forall₂ (ClassDecl.LowersTo program) program.classes codes) {name : String}
    (isClass : program.class? name = some decl) :
    ∃ code, codes.find? (fun code => code.name = name) = some code ∧ decl.LowersTo program code :=
  exists_find?_of_forall₂ lower (fun _ _ lowers => by rw [lowers.name_eq]) isClass

/-- The first entry method of a class is found in its code. -/
theorem ClassDecl.LowersTo.exists_entry {code : ClassCode} (lowers : decl.LowersTo program code)
    {method : Method} (first : decl.method? entryMethodName = some method) :
    ∃ found, code.methods.find? (fun code => code.name = entryMethodName) = some found ∧
      method.LowersTo program decl found := by
  obtain ⟨init, methods, initial, later, rfl⟩ := lowers.exists_methods
  obtain ⟨_, _, _, _, _, _, rfl⟩ := initial.exists_body
  -- the method that sets up an object comes first, but has another name
  exact exists_find?_of_forall₂ later (fun _ _ lowers => by rw [lowers.name_eq]) first

end Found

/-! ## Entries -/

/-- Whether an artifact starts where its program does: at the code of the first entry method, or else
at a method of a class of its own that returns zero. -/
inductive Program.StartsIn (program : Program) (artifact : Artifact) : Prop
  | entry {decl method code} (owner : program.entryClass? = some decl)
      (first : decl.method? entryMethodName = some method)
      (lowers : method.LowersTo program decl code)
      (named : artifact.entry = decl.name ++ "." ++ entryMethodName)
      (found : artifact.method? decl.name entryMethodName = some code)
  | added (none : program.entryClass? = none)
      (named : artifact.entry = defaultClassName ++ "." ++ defaultMethodName)
      (found : artifact.method? defaultClassName defaultMethodName =
        some ⟨defaultMethodName, [], [], [.const (.int 0), .ret]⟩)

/-- Whether a program has no need for a class of its own to start in, or the name of this class is not
taken. -/
def Program.HasEntryName (program : Program) : Prop :=
  program.entryClass?.isSome = true ∨ ∀ decl ∈ program.classes, decl.name ≠ defaultClassName

section Entries

variable {program : Program} {artifact : Artifact}

/-- The classes of an artifact have different names exactly if no class is added to them that has a
name that is taken. -/
theorem Program.nodup_classes_iff (distinct : (program.classes.map ClassDecl.name).Nodup)
    (lowered : program.lower = .ok artifact) :
    (artifact.classes.map ClassCode.name).Nodup ↔ program.HasEntryName := by
  obtain ⟨codes, classes, rfl⟩ := exists_classes_of_lower lowered
  have names := names_eq_of_lower classes
  unfold artifactOf HasEntryName
  cases program.entryClass? with
  | some decl =>
    rw [names]
    exact ⟨fun _ => .inl rfl, fun _ => distinct⟩
  | none =>
    have last : (codes ++ [defaultClass]).map ClassCode.name =
        program.classes.map ClassDecl.name ++ [defaultClassName] := by
      rw [map_append, names]
      rfl
    simp [last, nodup_append, distinct]

/-- A program starts where it should if the class that it starts in has a name of its own. -/
theorem Program.startsIn_of_lower (distinct : (program.classes.map ClassDecl.name).Nodup)
    (lowered : program.lower = .ok artifact) (free : program.HasEntryName) :
    program.StartsIn artifact := by
  obtain ⟨codes, classes, rfl⟩ := exists_classes_of_lower lowered
  cases owner : program.entryClass? with
  | some decl =>
    have mem : decl ∈ program.classes := mem_of_find?_eq_some owner
    have hasEntry : (decl.method? entryMethodName).isSome = true := by
      rw [entryClass?] at owner
      simpa using find?_some owner
    obtain ⟨method, first⟩ := Option.isSome_iff_exists.mp hasEntry
    obtain ⟨code, found, lowers⟩ :=
      exists_code_of_class? classes (Program.class?_of_mem distinct mem)
    obtain ⟨methodCode, found', lowers'⟩ := lowers.exists_entry first
    refine .entry owner first lowers' ?_ ?_
    · rw [artifactOf, owner]
    · rw [artifactOf, owner, Artifact.method?, Artifact.class?, found]
      exact found'
  | none =>
    rcases free with some | free
    · rw [owner] at some
      cases some
    · have absent : codes.find? (fun code => code.name = defaultClassName) = none := by
        refine find?_eq_none.mpr fun code mem named => ?_
        have taken := mem_map_of_mem (f := ClassCode.name) mem
        rw [names_eq_of_lower classes] at taken
        obtain ⟨decl, mem', same⟩ := mem_map.mp taken
        exact free decl mem' (same.trans (of_decide_eq_true named))
      refine .added owner ?_ ?_
      · rw [artifactOf, owner]
      · rw [artifactOf, owner, Artifact.method?, Artifact.class?, find?_append, absent]
        rfl

/-- A program without an entry method starts in its own class if that has the name of the class that
is added. -/
theorem Program.class?_of_taken (lowered : program.lower = .ok artifact)
    (taken : ¬program.HasEntryName) :
    artifact.entry = defaultClassName ++ "." ++ defaultMethodName ∧
      ∃ decl code, program.class? defaultClassName = some decl ∧ decl.LowersTo program code ∧
        artifact.class? defaultClassName = some code := by
  obtain ⟨codes, classes, rfl⟩ := exists_classes_of_lower lowered
  obtain ⟨noEntry, used⟩ := not_or.mp taken
  have owner : program.entryClass? = none := Option.not_isSome_iff_eq_none.mp noEntry
  obtain ⟨decl, isClass⟩ : ∃ decl, program.class? defaultClassName = some decl := by
    push Not at used
    obtain ⟨decl, mem, named⟩ := used
    exact Option.isSome_iff_exists.mp (find?_isSome.mpr ⟨decl, mem, decide_eq_true named⟩)
  obtain ⟨code, found, lowers⟩ := exists_code_of_class? classes isClass
  rw [artifactOf, owner]
  refine ⟨rfl, decl, code, isClass, lowers, ?_⟩
  rw [Artifact.class?, find?_append, found]
  rfl

end Entries

/-! ## Builds -/

/-- A build gives code if it reads a program with nothing wrong and lowers it, as it is or
simplified. -/
theorem Build.compiled_iff {optimize : Bool} {text : String} {analysis : Analysis}
    {artifact : Artifact} :
    (Build.ofText optimize text).outcome = .ok (.compiled analysis artifact) ↔
      ∃ program, Program.ofText text = .ok program ∧ program.analyze.isClean = true ∧
        analysis = program.analyze ∧
        (if optimize then program.simplify else program).lower = .ok artifact := by
  have finish_iff {program source : Program} :
      source.finish program.analyze = .ok (.compiled analysis artifact) ↔
        analysis = program.analyze ∧ source.lower = .ok artifact := by
    constructor
    · intro finished
      obtain ⟨result, lowered, same⟩ := exists_ok_of_bind finished
      cases same
      exact ⟨rfl, lowered⟩
    · rintro ⟨rfl, lowered⟩
      exact ok_of_bind lowered rfl
  unfold Build.ofText
  cases read : Program.ofText text with
  | error fault => simp
  | ok program =>
    cases clean : program.analyze.isClean with
    | false => simp [Program.build, clean]
    | true => cases optimize <;> simp [Program.build, clean, finish_iff]

theorem Program.names_simplify (program : Program) :
    program.simplify.classes.map ClassDecl.name = program.classes.map ClassDecl.name := by
  rw [Program.simplify, map_map]
  rfl

/-- The classes of a program that is built have different names, and it starts at the code of its
first entry method or in a class that is added to its own, unless there is no entry method and a class
has the name of the class that is added. Then two classes of the artifact share this name, and the
program starts in the one that it declares. -/
theorem Build.entry_of_compiled {optimize : Bool} {text : String} {analysis : Analysis}
    {artifact : Artifact}
    (compiled : (Build.ofText optimize text).outcome = .ok (.compiled analysis artifact)) :
    ∃ program source, Program.ofText text = .ok program ∧
      source = (if optimize then program.simplify else program) ∧
      ((artifact.classes.map ClassCode.name).Nodup ↔ source.HasEntryName) ∧
      (source.HasEntryName → source.StartsIn artifact) ∧
      (¬source.HasEntryName →
        artifact.entry = defaultClassName ++ "." ++ defaultMethodName ∧
        ∃ decl code, source.class? defaultClassName = some decl ∧ decl.LowersTo source code ∧
          artifact.class? defaultClassName = some code) := by
  obtain ⟨program, read, clean, -, lowered⟩ := Build.compiled_iff.mp compiled
  have distinct : ((if optimize then program.simplify else program).classes.map
      ClassDecl.name).Nodup := by
    have declared := Program.nodup_of_isClean clean
    split
    · rwa [Program.names_simplify]
    · exact declared
  exact ⟨program, _, read, rfl, Program.nodup_classes_iff distinct lowered,
    Program.startsIn_of_lower distinct lowered, Program.class?_of_taken lowered⟩

/-- A class with the name of the class that is added to programs without an entry method. -/
def takenName (method : String) : Program :=
  ⟨[⟨"Program", none, [], [.method ⟨method, [], none, [], ⟨1, 18⟩⟩], ⟨1, 1⟩⟩]⟩

/-- If this class has an entry method, no class is added, and the program starts at the method. -/
theorem Build.entry_of_compiled_main : ∃ analysis artifact source,
    (Build.ofText true "class Program is method main is end end").outcome =
      .ok (.compiled analysis artifact) ∧
    source = (takenName "main").simplify ∧ source.StartsIn artifact ∧
    (artifact.classes.map ClassCode.name).Nodup := by
  have read : Program.ofText "class Program is method main is end end" = .ok (takenName "main") := by
    decide +kernel
  have clean : (takenName "main").analyze.isClean = true := by decide +kernel
  have lowers : ∃ artifact, (takenName "main").simplify.lower = .ok artifact := ⟨_, rfl⟩
  obtain ⟨artifact, lowered⟩ := lowers
  have compiled : (Build.ofText true "class Program is method main is end end").outcome =
      .ok (.compiled (takenName "main").analyze artifact) :=
    Build.compiled_iff.mpr ⟨_, read, clean, rfl, lowered⟩
  obtain ⟨program, source, read', rfl, distinct, starts, -⟩ := Build.entry_of_compiled compiled
  obtain rfl : takenName "main" = program := by
    rw [read] at read'
    exact Except.ok.inj read'
  have free : (takenName "main").simplify.HasEntryName := .inl rfl
  exact ⟨_, artifact, _, compiled, rfl, starts free, distinct.mpr free⟩

/-- If it has none, two classes share the name, and the method where the program starts is not
found. -/
theorem Build.entry_of_takenName : ∃ analysis artifact,
    (Build.ofText false "class Program is method f is end end").outcome =
      .ok (.compiled analysis artifact) ∧
    artifact.classes.map ClassCode.name = ["Program", "Program"] ∧
    artifact.entry = "Program.Main" ∧ artifact.method? "Program" "Main" = none := by
  have read : Program.ofText "class Program is method f is end end" = .ok (takenName "f") := by
    decide +kernel
  have clean : (takenName "f").analyze.isClean = true := by decide +kernel
  have lowers : ∃ artifact, (takenName "f").lower = .ok artifact ∧
      artifact.classes.map ClassCode.name = ["Program", "Program"] ∧
      artifact.entry = "Program.Main" ∧ artifact.method? "Program" "Main" = none :=
    ⟨_, rfl, rfl, rfl, rfl⟩
  obtain ⟨artifact, lowered, found⟩ := lowers
  exact ⟨_, artifact, Build.compiled_iff.mpr ⟨_, read, clean, rfl, lowered⟩, found⟩

end ClassLang
