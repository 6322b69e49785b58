import ClassLang.Proofs.Analysis.Clean
import ClassLang.Proofs.Hierarchy.Ancestors

/-! # Where fields are found

The walk that looks for a field counts its steps and may go round a cycle of bases. The ancestors of a
class end at the first name met before. Both come to the same classes, as long as no two classes have
the same name: so a field is found where the ancestors have it first (`Program.fieldOf?_iff`). -/

namespace ClassLang

open List

namespace Program

variable {program : Program} {decl : ClassDecl} {name : String}

/-- A walk through a pool, from the class whose base it starts with, leaves the classes that it meets
only for names that were met before. -/
theorem mem_ancestorsIn_of_extends {pool : List ClassDecl} {base : Option String}
    {met : List String} (left : ∀ name, pool.find? (fun decl => decl.name = name) =
      if name ∈ met then none else program.class? name) (starts : decl.base = base)
    {member next : ClassDecl} (mem : member ∈ decl :: ancestorsIn pool base)
    (extends_ : program.Extends member next) : next ∈ ancestorsIn pool base ∨ next.name ∈ met := by
  fun_induction ancestorsIn pool base generalizing decl met with
  | case1 =>
    rw [mem_singleton.mp mem, Extends, starts] at extends_
    cases extends_
  | case2 pool other missing =>
    rw [mem_singleton.mp mem] at extends_
    obtain rfl : next.name = other := Option.some.inj (extends_.base_eq.symm.trans starts)
    by_contra unmet
    rw [left, if_neg (not_or.mp unmet).2] at missing
    rw [Extends, starts, Option.bind_some, missing] at extends_
    cases extends_
  | case3 pool other first found ih =>
    obtain ⟨-, known⟩ := Option.ite_none_left_eq_some.mp ((left other).symm.trans found)
    have again (same : next.name = other) : next = first := by
      obtain ⟨_, named, class_⟩ := Option.bind_eq_some_iff.mp extends_
      rw [extends_.base_eq, Option.some_inj] at named
      rw [← named, same, known] at class_
      exact (Option.some.inj class_).symm
    rcases mem_cons.mp mem with rfl | later
    · exact .inl (mem_cons.mpr (.inl (again
        (Option.some.inj (extends_.base_eq.symm.trans starts)))))
    · rcases ih (find?_withoutName_of_left left other) rfl later with further | seen
      · exact .inl (mem_cons_of_mem _ further)
      · rcases mem_cons.mp seen with same | seen
        · exact .inl (mem_cons.mpr (.inl (again same)))
        · exact .inr seen

/-- Bases lead from a class and its ancestors to no other class. -/
theorem mem_ancestors_of_extends (distinct : (program.classes.map ClassDecl.name).Nodup)
    (mem : decl ∈ program.classes) {member next : ClassDecl}
    (among : member ∈ decl :: program.ancestors decl) (extends_ : program.Extends member next) :
    next ∈ decl :: program.ancestors decl := by
  rcases mem_ancestorsIn_of_extends (program.find?_withoutName_classes decl.name) rfl among extends_
    with further | back
  · exact mem_cons_of_mem _ further
  · -- the class itself is the only one of its name
    obtain ⟨_, named, found⟩ := Option.bind_eq_some_iff.mp extends_
    rw [extends_.base_eq, Option.some_inj] at named
    rw [← named, mem_singleton.mp back, class?_of_mem distinct mem] at found
    exact mem_cons.mpr (.inl (Option.some.inj found).symm)

/-- A walk that never leaves classes without a field does not find it, however long it is. -/
theorem findField_eq_none {classes : List ClassDecl}
    (closed : ∀ {member next}, member ∈ classes → program.Extends member next → next ∈ classes)
    (lacks : ∀ member ∈ classes, member.field? name = none) (budget : Nat) (mem : decl ∈ classes) :
    program.findField name budget decl = none := by
  induction budget generalizing decl with
  | zero => rfl
  | succ budget ih =>
    rw [findField, lacks decl mem]
    dsimp only
    cases next : decl.base.bind program.class? with
    | none => rfl
    | some base => exact ih (closed mem next)

/-- If no two classes have the same name then a field is found where a class has it, or else where the
nearest of its ancestors has it. It is not found just when none of them has it. A walk of more steps
finds nothing else. -/
theorem fieldOf?_iff (distinct : (program.classes.map ClassDecl.name).Nodup)
    (mem : decl ∈ program.classes) (name : String) :
    program.fieldOf? decl name = firstField? (decl :: program.ancestors decl) name ∧
      (program.fieldOf? decl name = none ↔
        decl.field? name = none ∧ ∀ ancestor ∈ program.ancestors decl, ancestor.field? name = none) ∧
      ∀ budget, program.classes.length ≤ budget →
        program.findField name (budget + 1) decl = program.fieldOf? decl name := by
  have same (budget : Nat) (enough : program.classes.length ≤ budget) :
      program.findField name (budget + 1) decl =
        firstField? (decl :: program.ancestors decl) name := by
    cases first : firstField? (decl :: program.ancestors decl) name with
    | some found => exact findField_eq_some first enough
    | none =>
      refine findField_eq_none (mem_ancestors_of_extends distinct mem) ?_ _ List.mem_cons_self
      simpa [firstField?] using first
  have here := same program.classes.length (Nat.le_refl _)
  refine ⟨here, ?_, fun budget enough => (same budget enough).trans here.symm⟩
  rw [fieldOf?, here]
  simp [firstField?]

/-- Three classes whose bases lead into a cycle, of which two have a field. -/
def circlingFields : Program :=
  ⟨[⟨"A", some "B", [], [], .start⟩,
    ⟨"B", some "C", [], [.field ⟨"x", .int "1" .start, .start⟩], .start⟩,
    ⟨"C", some "B", [], [.field ⟨"x", .int "2" .start, .start⟩], .start⟩]⟩

/-- The field is found in the class of the cycle that comes first, and a field that none of the classes
has is not found. -/
theorem fieldOf?_circlingFields :
    let decl : ClassDecl := ⟨"A", some "B", [], [], .start⟩
    (circlingFields.classes.map ClassDecl.name).Nodup ∧ decl ∈ circlingFields.classes ∧
      (circlingFields.fieldOf? decl "x").map (fun found => found.1.name) = some "B" ∧
      circlingFields.fieldOf? decl "y" = none := by
  intro decl
  have distinct : (circlingFields.classes.map ClassDecl.name).Nodup := by decide
  have mem : decl ∈ circlingFields.classes := List.mem_cons_self
  refine ⟨distinct, mem, ?_, (fieldOf?_iff distinct mem "y").2.1.mpr (by decide +kernel)⟩
  rw [(fieldOf?_iff distinct mem "x").1]
  decide +kernel

end Program

end ClassLang
