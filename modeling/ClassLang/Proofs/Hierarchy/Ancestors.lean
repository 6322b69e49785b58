import Mathlib.Data.List.Chain
import ClassLang.Proofs.Hierarchy

/-! # Ancestors as chains of bases

A chain of bases leads from a class to the class named as its base, from there to the base of that
class, and so on. It ends where a base names no class. The ancestors of a class are what the chains
come to that meet no name twice (`Program.mem_ancestors_iff`), and a class inherits the members that
they declare (`Program.inherits_iff`). -/

namespace ClassLang

open List

/-- The name of a member. -/
def Member.name : Member → String
  | .field decl => decl.name
  | .method decl => decl.name

/-- A class has a field or a method of a name if it declares a member of that name. -/
theorem ClassDecl.isSome_member_iff (decl : ClassDecl) (name : String) :
    ((decl.field? name).isSome || (decl.method? name).isSome) = true ↔
      ∃ member ∈ decl.members, member.name = name := by
  simp only [field?, method?, fields, methods, Bool.or_eq_true, find?_isSome,
    mem_filterMap, decide_eq_true_eq]
  constructor
  · rintro (⟨field, ⟨member, owned, same⟩, named⟩ | ⟨method, ⟨member, owned, same⟩, named⟩)
    · cases member with
      | field decl =>
        cases same
        exact ⟨_, owned, named⟩
      | method decl => cases same
    · cases member with
      | field decl => cases same
      | method decl =>
        cases same
        exact ⟨_, owned, named⟩
  · rintro ⟨member, owned, named⟩
    cases member with
    | field field => exact .inl ⟨field, ⟨_, owned, rfl⟩, named⟩
    | method method => exact .inr ⟨method, ⟨_, owned, rfl⟩, named⟩

namespace Program

variable (program : Program)

/-- A class extends the first class that has the name of its base. -/
def Extends (decl base : ClassDecl) : Prop := decl.base.bind program.class? = some base

/-- An ancestor of a class is the end of a chain of bases that starts at the class and meets no name
twice, the name of the class itself included. -/
def IsAncestor (decl ancestor : ClassDecl) : Prop :=
  ∃ between : List ClassDecl,
    List.IsChain program.Extends (decl :: (between ++ [ancestor])) ∧
      ((decl :: (between ++ [ancestor])).map ClassDecl.name).Nodup

variable {program}

theorem Extends.base_eq {decl base : ClassDecl} (extends_ : program.Extends decl base) :
    decl.base = some base.name := by
  obtain ⟨name, named, found⟩ := Option.bind_eq_some_iff.mp extends_
  have same : base.name = name := by simpa using find?_some found
  rw [named, same]

/-- The classes of a pool without a name are the others. -/
theorem find?_withoutName_eq (pool : List ClassDecl) (removed name : String) :
    (withoutName pool removed).find? (fun decl => decl.name = name) =
      if name = removed then none else pool.find? (fun decl => decl.name = name) := by
  rw [withoutName, find?_filter]
  by_cases same : name = removed
  · rw [if_pos same, find?_eq_none]
    intro decl _
    simp [same]
  · rw [if_neg same]
    refine congrArg (List.find? · pool) (funext fun decl => ?_)
    by_cases named : decl.name = name
    · simp [named, same]
    · simp [named]

/-- Where a name is removed from a pool, the classes of other names are left. -/
theorem find?_withoutName_of_left {pool : List ClassDecl} {met : List String}
    (left : ∀ name, pool.find? (fun decl => decl.name = name) =
      if name ∈ met then none else program.class? name) (removed name : String) :
    (withoutName pool removed).find? (fun decl => decl.name = name) =
      if name ∈ removed :: met then none else program.class? name := by
  rw [find?_withoutName_eq, left name]
  by_cases same : name = removed
  · simp [same]
  · simp [same]

/-- The classes of other names are left when a walk along bases begins. -/
theorem find?_withoutName_classes (program : Program) (removed name : String) :
    (withoutName program.classes removed).find? (fun decl => decl.name = name) =
      if name ∈ [removed] then none else program.class? name := by
  rw [find?_withoutName_eq, class?]
  simp only [mem_singleton]

/-- What is met by following bases through a pool lies at the end of a chain that keeps to the names
of the pool and meets none of them twice. -/
theorem mem_ancestorsIn_iff {pool : List ClassDecl} {base : Option String} {met : List String}
    (left : ∀ name, pool.find? (fun decl => decl.name = name) =
      if name ∈ met then none else program.class? name)
    {decl : ClassDecl} (starts : decl.base = base) (ancestor : ClassDecl) :
    ancestor ∈ ancestorsIn pool base ↔
      ∃ between, List.IsChain program.Extends (decl :: (between ++ [ancestor])) ∧
        ((between ++ [ancestor]).map ClassDecl.name).Nodup ∧
        ∀ other ∈ between ++ [ancestor], other.name ∉ met := by
  fun_induction ancestorsIn pool base generalizing decl met with
  | case1 pool =>
    -- there is no base to follow
    refine iff_of_false not_mem_nil ?_
    rintro ⟨between, chain, -⟩
    have first : ∃ next, program.Extends decl next := by
      cases between with
      | nil => exact ⟨_, (isChain_cons_cons.mp chain).1⟩
      | cons next rest => exact ⟨_, (isChain_cons_cons.mp chain).1⟩
    obtain ⟨next, extends_⟩ := first
    rw [extends_.base_eq] at starts
    cases starts
  | case2 pool name missing =>
    -- the base was met before or names no class
    refine iff_of_false not_mem_nil ?_
    rintro ⟨between, chain, -, new⟩
    obtain ⟨next, extends_, mem⟩ : ∃ next, program.Extends decl next ∧ next.name ∉ met := by
      cases between with
      | nil => exact ⟨_, (isChain_cons_cons.mp chain).1, new _ mem_cons_self⟩
      | cons next rest => exact ⟨_, (isChain_cons_cons.mp chain).1, new _ mem_cons_self⟩
    have named : some next.name = some name := extends_.base_eq.symm.trans starts
    cases named
    have found := left next.name
    rw [missing, if_neg mem] at found
    rw [Extends, starts, Option.bind_some, ← found] at extends_
    cases extends_
  | case3 pool name next found ih =>
    have named : next.name = name := by simpa using find?_some found
    obtain ⟨unmet, known⟩ := Option.ite_none_left_eq_some.mp ((left name).symm.trans found)
    have extends_ : program.Extends decl next := by
      rw [Extends, starts, Option.bind_some, known]
    have further := ih (find?_withoutName_of_left left name) (show next.base = next.base from rfl)
    rw [mem_cons, further]
    constructor
    · rintro (rfl | ⟨between, chain, distinct, new⟩)
      · exact ⟨[], by simpa using extends_, by simp, by simpa [named] using unmet⟩
      · have outside : ∀ other ∈ between ++ [ancestor], other.name ≠ name ∧ other.name ∉ met :=
          fun other mem => by simpa using new other mem
        refine ⟨next :: between, ?_, ?_, ?_⟩
        · exact isChain_cons_cons.mpr ⟨extends_, chain⟩
        · rw [cons_append, map_cons, nodup_cons, mem_map]
          refine ⟨?_, distinct⟩
          rintro ⟨other, mem, same⟩
          exact (outside other mem).1 (same.trans named)
        · rw [cons_append, forall_mem_cons, named]
          exact ⟨unmet, fun other mem => (outside other mem).2⟩
    · rintro ⟨between, chain, distinct, new⟩
      cases between with
      | nil =>
        have last := (isChain_cons_cons.mp chain).1
        exact .inl (Option.some.inj (last.symm.trans extends_))
      | cons other rest =>
        obtain ⟨first, chain⟩ := isChain_cons_cons.mp chain
        obtain rfl : other = next := Option.some.inj (first.symm.trans extends_)
        rw [cons_append, map_cons, nodup_cons, mem_map] at distinct
        refine .inr ⟨rest, chain, distinct.2, fun later mem => ?_⟩
        rw [mem_cons, not_or]
        refine ⟨fun same => distinct.1 ⟨later, mem, same.trans named.symm⟩, ?_⟩
        exact new later (mem_cons_of_mem _ mem)

/-- The ancestors of a class are the ends of the chains of bases from it. -/
theorem mem_ancestors_iff (program : Program) (decl ancestor : ClassDecl) :
    ancestor ∈ program.ancestors decl ↔ program.IsAncestor decl ancestor := by
  have left := program.find?_withoutName_classes decl.name
  rw [ancestors, mem_ancestorsIn_iff left rfl ancestor, IsAncestor]
  refine exists_congr fun between => and_congr_right fun _ => ?_
  rw [map_cons, nodup_cons, mem_map, and_comm]
  refine and_congr_left fun _ => ?_
  simp only [mem_singleton]
  exact ⟨fun new ⟨other, mem, same⟩ => new other mem same,
    fun new other mem same => new ⟨other, mem, same⟩⟩

theorem inherits_iff (program : Program) (decl : ClassDecl) (name : String) :
    program.inherits decl name = true ↔
      ∃ ancestor, program.IsAncestor decl ancestor ∧
        ∃ member ∈ ancestor.members, member.name = name := by
  simp only [inherits, any_eq_true, mem_ancestors_iff, ClassDecl.isSome_member_iff]

end Program

end ClassLang
