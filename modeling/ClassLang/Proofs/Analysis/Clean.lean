import Mathlib.Data.List.Nodup
import ClassLang.Proofs.Analysis
import ClassLang.Proofs.Hierarchy.Ancestors

/-! # What nothing is wrong with

A clean result says something about every declaration that the analysis came to: names are declared
once in their scope, bases are in order, and methods agree with those that they override. -/

namespace ClassLang

open List

/-! ## Names that are declared once -/

namespace Analysis

/-- A declaration that nothing is reported about has a name that is new in its scope. -/
theorem exists_declare?_of_clean {analysis : Analysis} {name : String} {role : Role}
    {position : Position} {duplicate : Finding}
    (clean : (analysis.declare name role position duplicate).diagnostics = []) :
    ∃ scopes, analysis.scopes.declare? name ⟨role, position⟩ = some scopes ∧
      analysis.declare name role position duplicate = { analysis with scopes := scopes } := by
  unfold declare at clean ⊢
  cases declared : analysis.scopes.declare? name ⟨role, position⟩ with
  | some scopes => exact ⟨scopes, rfl, rfl⟩
  | none =>
    rw [declared] at clean
    exact absurd clean (append_ne_nil_of_right_ne_nil _ (cons_ne_nil _ _))

/-- Things that are declared in order without a report have names of their own, new in their
scope. -/
theorem nodup_of_declares {α : Type} {step : Analysis → α → Analysis} {name : α → String}
    (declares : ∀ analysis item, ∃ role position duplicate,
      step analysis item = analysis.declare (name item) role position duplicate)
    {items : List α} {analysis : Analysis} {scope : List (String × Declaration)}
    {outer : List (List (String × Declaration))}
    (opened : analysis.scopes.declarations = scope :: outer)
    (clean : (items.foldl step analysis).diagnostics = []) :
    (items.map name).Nodup ∧ ∀ taken ∈ items.map name, scope.lookup taken = none := by
  induction items generalizing analysis scope with
  | nil => exact ⟨nodup_nil, nofun⟩
  | cons item rest ih =>
    obtain ⟨role, position, duplicate, step_eq⟩ := declares analysis item
    have first : (step analysis item).diagnostics = [] := by
      have later : Grows (fun _ => True) (step analysis item)
          (rest.foldl step (step analysis item)) := by
        refine .foldl (fun item _ analysis => ?_) _
        obtain ⟨role, position, duplicate, step_eq⟩ := declares analysis item
        rw [step_eq]
        exact analysis.grows_declare trivial _
      exact later.clean clean
    rw [step_eq] at first
    obtain ⟨scopes, declared, after⟩ := exists_declare?_of_clean first
    have fresh : scope.lookup (name item) = none := by
      unfold Scopes.declare? at declared
      rw [opened] at declared
      exact Option.not_isSome_iff_eq_none.mp (Option.ite_none_left_eq_some.mp declared).1
    have added : (step analysis item).scopes.declarations =
        ((name item, ⟨role, position⟩) :: scope) :: outer := by
      rw [step_eq, after]
      exact (Scopes.declarations_declare? declared).trans (congrArg _ opened)
    obtain ⟨distinct, free⟩ := ih added clean
    have notSame {taken : String} (mem : taken ∈ rest.map name) : taken ≠ name item := by
      rintro rfl
      have found := free _ mem
      simp at found
    refine ⟨nodup_cons.mpr ⟨fun mem => notSame mem rfl, distinct⟩, fun taken mem => ?_⟩
    rcases mem_cons.mp mem with rfl | mem
    · exact fresh
    · have later := free taken mem
      rwa [lookup_cons, beq_false_of_ne (notSame mem)] at later

end Analysis

/-- What has a name of its own is found by its name. -/
theorem find?_eq_some_of_unique {α : Type} {name : α → String} {items : List α} {item : α}
    (mem : item ∈ items) (unique : ∀ other ∈ items, name other = name item → other = item) :
    items.find? (fun other => name other = name item) = some item := by
  have isFound : (items.find? fun other => name other = name item).isSome = true :=
    find?_isSome.mpr ⟨item, mem, decide_eq_true rfl⟩
  obtain ⟨found, first⟩ := Option.isSome_iff_exists.mp isFound
  have named : name found = name item := by simpa using find?_some first
  rw [first, unique found (mem_of_find?_eq_some first) named]

namespace Program

variable {program : Program} {decl : ClassDecl}

/-- The classes of a program have different names if nothing is wrong with it. -/
theorem nodup_of_isClean (clean : program.analyze.isClean = true) :
    (program.classes.map ClassDecl.name).Nodup := by
  have whole : (program.classes.foldl (Analysis.visitClass program) program.declared).diagnostics =
      [] := isEmpty_iff.mp clean
  have declared :=
    (Analysis.Keeps.foldl (Analysis.keeps_visitClass program) program.classes _).clean whole
  exact (Analysis.nodup_of_declares (fun _ _ => ⟨_, _, _, rfl⟩) rfl declared).1

theorem class?_of_mem (distinct : (program.classes.map ClassDecl.name).Nodup)
    (mem : decl ∈ program.classes) : program.class? decl.name = some decl :=
  find?_eq_some_of_unique mem fun _ other same => inj_on_of_nodup_map distinct other mem same

variable (clean : program.analyze.isClean = true)

include clean

/-- On the way to a clean result, nothing is reported while a class is opened. -/
theorem clean_openClass {before after : List ClassDecl}
    (classes : program.classes = before ++ decl :: after) :
    ((program.visited before).openClass program decl).diagnostics = [] :=
  (Analysis.Keeps.foldl (Analysis.keeps_visitMember program decl) decl.members _).clean
    (Stmt.clean_before_within (clean_visitClass clean classes))

variable (mem : decl ∈ program.classes)

include mem

/-- A method is found by its name if nothing is wrong with the program. -/
theorem method?_of_isClean {method : Method} (own : method ∈ decl.methods) :
    decl.method? method.name = some method := by
  obtain ⟨before, after, classes⟩ := append_of_mem mem
  have declares (analysis : Analysis) (member : Member) : ∃ role position duplicate,
      analysis.declareMember member = analysis.declare member.name role position duplicate := by
    cases member with
    | field field => exact ⟨_, _, _, rfl⟩
    | method method => exact ⟨_, _, _, rfl⟩
  have distinct := (Analysis.nodup_of_declares declares rfl (clean_openClass clean classes)).1
  refine find?_eq_some_of_unique own fun other owned same => ?_
  exact Member.method.inj (inj_on_of_nodup_map distinct (ClassDecl.mem_methods.mp owned)
    (ClassDecl.mem_methods.mp own) same)

/-- Nothing is wrong with the base of a class if nothing is wrong with the program. -/
theorem checkBase_of_isClean : program.checkBase decl = [] := by
  obtain ⟨before, after, classes⟩ := append_of_mem mem
  have declared : Analysis.Grows (Analysis.Declares decl)
      ((program.visited before).enter.reportAll (program.checkBase decl))
      ((program.visited before).openClass program decl) :=
    .foldl (fun _ => Analysis.grows_declareMember decl) _
  exact (append_eq_nil_iff.mp (declared.clean (clean_openClass clean classes))).2

/-- A method agrees with the one that it overrides if nothing is wrong with the program. -/
theorem checkOverride_of_isClean {method : Method} (own : method ∈ decl.methods) :
    program.checkOverride decl method = [] := by
  obtain ⟨before, after, classes⟩ := append_of_mem mem
  obtain ⟨first, later, members⟩ := append_of_mem (ClassDecl.mem_methods.mp own)
  have visited := (Analyzes.method classes members).clean clean
  have head := (Stmt.grows_analyzeBlock _ _ _).clean visited
  exact (append_eq_nil_iff.mp head).2

end Program

end ClassLang
