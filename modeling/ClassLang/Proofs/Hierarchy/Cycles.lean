import Mathlib.Logic.Relation
import ClassLang.Proofs.Analysis.Clean

/-! # Cycles of bases

A name leads to the base of the first class that has it, and from there to the base of that one. The
walk along the bases of a class tells whether the class lies on a cycle, which is more than to lead
into one (`Program.inCycle_iff`). If nothing is wrong with a program then no class lies on a cycle,
and so the walk ends at a class without a base. -/

namespace ClassLang

open Relation List

/-! ## Where a walk ends -/

section Walk

variable {pool : List ClassDecl} {name : String} {next : ClassDecl}

theorem ancestorsIn_none (pool : List ClassDecl) : ancestorsIn pool none = [] := by
  rw [ancestorsIn]

/-- A walk ends at a name that the pool does not have. -/
theorem ancestorsIn_of_missing (missing : pool.find? (fun decl => decl.name = name) = none) :
    ancestorsIn pool (some name) = [] := by
  rw [ancestorsIn]
  split
  · rfl
  · next found => cases missing.symm.trans found

/-- A walk goes on from a class of the pool. -/
theorem ancestorsIn_of_found (found : pool.find? (fun decl => decl.name = name) = some next) :
    ancestorsIn pool (some name) = next :: ancestorsIn (withoutName pool name) next.base := by
  rw [ancestorsIn]
  split
  · next missing => cases missing.symm.trans found
  · next other found' =>
      cases found'.symm.trans found
      rfl

end Walk

/-- A walk meets no more classes than the pool has. -/
theorem length_ancestorsIn_le (pool : List ClassDecl) (base : Option String) :
    (ancestorsIn pool base).length ≤ pool.length := by
  fun_induction ancestorsIn pool base with
  | case1 => exact Nat.zero_le _
  | case2 => exact Nat.zero_le _
  | case3 pool name next found ih => exact Nat.lt_of_le_of_lt ih (length_withoutName_lt found)

namespace Program

/-- A name leads to the base of the first class that has it. -/
def LeadsTo (program : Program) (name base : String) : Prop :=
  (program.class? name).bind ClassDecl.base = some base

variable {program : Program} {decl : ClassDecl} {pool : List ClassDecl} {base : Option String}
  {met : List String}

theorem length_ancestors_lt (mem : decl ∈ program.classes) :
    (program.ancestors decl).length < program.classes.length := by
  refine Nat.lt_of_le_of_lt (length_ancestorsIn_le _ _) ?_
  exact length_filter_lt_length_iff_exists.mpr ⟨decl, mem, by simp⟩

/-- A class leads where its base leads, if its program finds it by its name. -/
theorem leadsTo_iff {name next : String} (found : program.class? name = some decl) :
    program.LeadsTo name next ↔ decl.base = some next := by
  rw [LeadsTo, found, Option.bind_some]

/-- The walk along bases comes to a name that it has not visited if the base leads to that name. The
names visited lead to one another and to the base, so that a walk which comes to one of them again is
in a circle that the name is not on. -/
theorem followBases_iff {target : String} {visited : List String} (unseen : target ∉ visited)
    (closed : ∀ name ∈ visited, ∀ next, program.LeadsTo name next → next ∈ visited ∨ base = some next) :
    (program.followBases target visited base).1 = true ↔
      ∃ first, base = some first ∧ ReflTransGen program.LeadsTo first target := by
  fun_induction followBases program target visited base with
  | case1 => simp
  | case2 => exact iff_of_true rfl ⟨_, rfl, .refl⟩
  | case3 visited name different seen =>
    refine iff_of_false Bool.false_ne_true ?_
    rintro ⟨_, ⟨⟩, reaches⟩
    have stays (other : String) (reaches : ReflTransGen program.LeadsTo name other) :
        other ∈ visited := by
      induction reaches with
      | refl => exact seen
      | tail _ step ih => exact (closed _ ih _ step).elim id fun here => Option.some.inj here ▸ seen
    exact unseen (stays target reaches)
  | case4 visited name different new ih =>
    have closed' : ∀ other ∈ name :: visited, ∀ next, program.LeadsTo other next →
        next ∈ name :: visited ∨ (program.class? name).bind ClassDecl.base = some next := by
      intro other mem next leads
      rcases mem_cons.mp mem with rfl | mem
      · exact .inr leads
      · rcases closed other mem next leads with again | here
        · exact .inl (mem_cons_of_mem _ again)
        · exact .inl (Option.some.inj here ▸ mem_cons_self)
    rw [ih (by simp [unseen, Ne.symm different]) closed']
    constructor
    · rintro ⟨first, step, reaches⟩
      exact ⟨name, rfl, .head step reaches⟩
    · rintro ⟨_, ⟨⟩, reaches⟩
      exact reaches.cases_head.resolve_left different

/-- A class lies on a cycle if its base leads back to its name. -/
theorem inCycle_iff (program : Program) (decl : ClassDecl) :
    program.inCycle decl = true ↔
      ∃ base, decl.base = some base ∧ ReflTransGen program.LeadsTo base decl.name :=
  followBases_iff not_mem_nil (forall_mem_nil _)

/-- The walk along bases visits each class once, other than the one sought, and then at most a name that
no class has. -/
theorem length_followBases_le (target : String) (visited : List String) (base : Option String) :
    (program.followBases target visited base).2.length ≤
      visited.length + (program.unvisited (target :: visited)).length + base.isSome.toNat := by
  fun_induction followBases program target visited base with
  | case1 | case2 | case3 => simp only; omega
  | case4 visited name different new ih =>
    have swap : program.unvisited (target :: name :: visited) =
        program.unvisited (name :: target :: visited) :=
      filter_congr fun decl _ => by simp [and_left_comm]
    have fewer := program.length_unvisited_cons (not_mem_cons_of_ne_of_not_mem different new)
    rw [swap, length_cons] at ih
    simp only [Option.isSome_some, Bool.toNat_true]
    omega

theorem length_visited_le (mem : decl ∈ program.classes) :
    (program.followBases decl.name [] decl.base).2.length ≤ program.classes.length := by
  have visits := program.length_followBases_le decl.name [] decl.base
  have others : (program.unvisited [decl.name]).length < program.classes.length :=
    length_filter_lt_length_iff_exists.mpr ⟨decl, mem, by simp⟩
  have := Bool.toNat_le decl.base.isSome
  rw [length_nil] at visits
  omega

example :
    let leading : ClassDecl := ⟨"A", some "B", [], [], .start⟩
    let circling : ClassDecl := ⟨"B", some "C", [], [], .start⟩
    let program : Program := ⟨[leading, circling, ⟨"C", some "B", [], [], .start⟩]⟩
    program.inCycle leading = false ∧ program.inCycle circling = true := by
  decide +kernel

/-! ## Roots -/

/-- Nothing is wrong with the base of a class if there is none, or if it is declared and the class does
not lie on a cycle. -/
theorem checkBase_eq_nil {first : String} (fine : program.checkBase decl = [])
    (starts : decl.base = some first) :
    (program.class? first).isSome = true ∧ program.inCycle decl = false := by
  rw [checkBase, starts] at fine
  dsimp only at fine
  split_ifs at fine with _ missing cyclic
  exact ⟨by simpa [Option.isSome_iff_ne_none] using missing, by simpa using cyclic⟩

section Clean

variable (clean : program.analyze.isClean = true)

include clean

/-- No name leads back to itself if nothing is wrong with the program. -/
theorem not_transGen_of_isClean (name : String) : ¬TransGen program.LeadsTo name name := by
  intro cycle
  obtain ⟨first, step, back⟩ := TransGen.head'_iff.mp cycle
  obtain ⟨decl, found, starts⟩ := Option.bind_eq_some_iff.mp step
  have named : decl.name = name := by simpa using find?_some found
  have cyclic : program.inCycle decl = true :=
    (program.inCycle_iff decl).mpr ⟨first, starts, named ▸ back⟩
  have fine := checkBase_of_isClean clean (mem_of_find?_eq_some found)
  exact Bool.false_ne_true ((checkBase_eq_nil fine starts).2.symm.trans cyclic)

/-- A name leads to names of classes only if nothing is wrong with the program. -/
theorem isSome_class?_of_leadsTo {name next : String} (leads : program.LeadsTo name next) :
    (program.class? next).isSome = true := by
  obtain ⟨decl, found, starts⟩ := Option.bind_eq_some_iff.mp leads
  exact (checkBase_eq_nil (checkBase_of_isClean clean (mem_of_find?_eq_some found)) starts).1

/-- If nothing is wrong with a program then a walk, whose base the names that were met lead to, ends at
a class without a base. -/
theorem base_getLast_ancestorsIn (starts : decl.base = base)
    (left : ∀ name, pool.find? (fun decl => decl.name = name) =
      if name ∈ met then none else program.class? name)
    (declared : ∀ first, base = some first → (program.class? first).isSome = true)
    (leads : ∀ name ∈ met, ∀ first, base = some first → TransGen program.LeadsTo name first) :
    ((decl :: ancestorsIn pool base).getLast (cons_ne_nil _ _)).base = none := by
  fun_induction ancestorsIn pool base generalizing met decl with
  | case1 pool => exact starts
  | case2 pool name missing =>
    rw [left name] at missing
    split at missing
    · -- a name that was met leads to itself
      next seen => exact absurd (leads name seen name rfl) (not_transGen_of_isClean clean name)
    · have known := declared name rfl
      rw [missing] at known
      cases known
  | case3 pool name next found ih =>
    obtain ⟨unmet, known⟩ := Option.ite_none_left_eq_some.mp ((left name).symm.trans found)
    rw [getLast_cons (cons_ne_nil _ _)]
    refine ih rfl (find?_withoutName_of_left left name) (fun first starts => ?_)
      fun other mem first starts => ?_
    · exact isSome_class?_of_leadsTo clean ((leadsTo_iff known).mpr starts)
    · have step := (leadsTo_iff known).mpr starts
      rcases mem_cons.mp mem with rfl | mem
      · exact .single step
      · exact (leads other mem name rfl).tail step

/-- The walk along the bases of a class ends at a class without a base if nothing is wrong with the
program. -/
theorem base_getLast_ancestors (mem : decl ∈ program.classes) :
    ((decl :: program.ancestors decl).getLast (cons_ne_nil _ _)).base = none := by
  have found := class?_of_mem (nodup_of_isClean clean) mem
  refine base_getLast_ancestorsIn clean rfl (program.find?_withoutName_classes decl.name)
    (fun first starts => ?_) fun name named first starts => ?_
  · exact isSome_class?_of_leadsTo clean ((leadsTo_iff found).mpr starts)
  · rw [mem_singleton.mp named]
    exact .single ((leadsTo_iff found).mpr starts)

end Clean

/-- A walk through a pool of classes is a chain of bases. -/
theorem isChain_ancestorsIn
    (known : ∀ name next, pool.find? (fun decl => decl.name = name) = some next →
      program.class? name = some next) (starts : decl.base = base) :
    List.IsChain program.Extends (decl :: ancestorsIn pool base) := by
  fun_induction ancestorsIn pool base generalizing decl with
  | case1 => exact .singleton _
  | case2 => exact .singleton _
  | case3 pool name next found ih =>
    have extends_ : program.Extends decl next := by
      rw [Extends, starts, Option.bind_some, known name next found]
    have further := ih (fun name next found => known name next (find?_withoutName found)) rfl
    exact isChain_cons_cons.mpr ⟨extends_, further⟩

theorem isChain_ancestors (program : Program) (decl : ClassDecl) :
    List.IsChain program.Extends (decl :: program.ancestors decl) :=
  isChain_ancestorsIn (fun _ _ => find?_withoutName) rfl

/-- Every class is found to lie on a cycle exactly if its base leads back to its name, after a walk that
visits no more names than there are classes; it has fewer ancestors than there are classes. If nothing
is wrong with a program then its classes have different names, their bases are declared, and following
bases leads from every class to one without a base, in fewer steps than there are classes. -/
theorem inCycle_iff_and_rooted_of_isClean (program : Program) :
    (∀ decl ∈ program.classes,
      (program.followBases decl.name [] decl.base).2.length ≤ program.classes.length ∧
      (program.ancestors decl).length < program.classes.length ∧
      (program.inCycle decl = true ↔
        ∃ base, decl.base = some base ∧ ReflTransGen program.LeadsTo base decl.name)) ∧
    (program.analyze.isClean = true →
      (program.classes.map ClassDecl.name).Nodup ∧
      (∀ decl ∈ program.classes, ∀ base, decl.base = some base →
        base ∈ program.classes.map ClassDecl.name) ∧
      ∀ decl ∈ program.classes, ∃ chain : List ClassDecl,
        List.IsChain program.Extends (decl :: chain) ∧ chain.length < program.classes.length ∧
          ((decl :: chain).getLast (cons_ne_nil _ _)).base = none) := by
  refine ⟨fun decl mem => ⟨length_visited_le mem, length_ancestors_lt mem, program.inCycle_iff decl⟩,
    fun clean => ?_⟩
  refine ⟨nodup_of_isClean clean, fun decl mem base starts => ?_, fun decl mem => ?_⟩
  · have declared := (checkBase_eq_nil (checkBase_of_isClean clean mem) starts).1
    obtain ⟨next, found⟩ := Option.isSome_iff_exists.mp declared
    have named : next.name = base := by simpa using find?_some found
    exact mem_map.mpr ⟨next, mem_of_find?_eq_some found, named⟩
  · refine ⟨program.ancestors decl, program.isChain_ancestors decl, length_ancestors_lt mem, ?_⟩
    exact base_getLast_ancestors clean mem

/-- Three classes, each of which extends the next. -/
def threeTiers : Program :=
  ⟨[⟨"C", some "B", [], [], .start⟩, ⟨"B", some "A", [], [], .start⟩, ⟨"A", none, [], [], .start⟩]⟩

/-- Nothing is wrong with three classes each of which extends the next. -/
theorem rooted_threeTiers :
    threeTiers.analyze.isClean = true ∧ ∃ chain : List ClassDecl,
      List.IsChain threeTiers.Extends (⟨"C", some "B", [], [], .start⟩ :: chain) ∧ chain.length < 3 ∧
        ((⟨"C", some "B", [], [], .start⟩ :: chain).getLast (cons_ne_nil _ _)).base = none := by
  have clean : threeTiers.analyze.isClean = true := by decide +kernel
  exact ⟨clean, ((inCycle_iff_and_rooted_of_isClean threeTiers).2 clean).2.2 _ mem_cons_self⟩

end Program

end ClassLang
