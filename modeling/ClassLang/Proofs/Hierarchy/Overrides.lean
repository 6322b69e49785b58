import ClassLang.Proofs.Hierarchy.Cycles
import ClassLang.Proofs.Printing.Layout

/-! # Signatures of methods that override one another

A method is compared with the nearest one that it overrides and with no other. To be the same apart
from positions is an equivalence of types, so if nothing is wrong with a program then a method agrees
with all methods of its name in all classes above its own. -/

namespace ClassLang

open Relation TypeRef

/-! ## The same apart from positions -/

mutual

/-- Types are the same apart from positions if they are equal without them. -/
theorem TypeRef.sameAs_iff (first second : TypeRef) :
    first.sameAs second = true ↔ first.erase = second.erase := by
  obtain ⟨name, arguments, position⟩ := first
  obtain ⟨name', arguments', position'⟩ := second
  simp [sameAs, erase, sameLists_iff arguments arguments']

theorem TypeRef.sameLists_iff (first second : List TypeRef) :
    sameLists first second = true ↔ eraseList first = eraseList second := by
  cases first with
  | nil => cases second <;> simp [sameLists, eraseList]
  | cons type rest =>
    cases second with
    | nil => simp [sameLists, eraseList]
    | cons type' rest' =>
      simp [sameLists, eraseList, sameAs_iff type type', sameLists_iff rest rest']

end

/-- The types of the parameters and of the result of a method, without positions. -/
def Method.signature (method : Method) : List TypeRef × Option TypeRef :=
  (method.params.map fun param => param.type.erase, method.result.map TypeRef.erase)

/-- Two results are the same apart from positions if they are equal without them. -/
theorem sameResult_iff (first second : Option TypeRef) :
    sameResult first second = true ↔ first.map erase = second.map erase := by
  cases first <;> cases second <;> simp [sameResult, sameAs_iff]

/-- Two results that are the same are both absent or of the same type. -/
theorem rel_of_sameResult : ∀ {first second : Option TypeRef}, sameResult first second = true →
    Option.Rel (fun type type' => type.sameAs type' = true) first second
  | none, none, _ => .none
  | some _, some _, same => .some same

/-- Two methods take and return the same types if they have the same signature. -/
theorem Method.sameSignature_iff (first second : Method) :
    first.sameSignature second = true ↔ first.signature = second.signature := by
  simp only [sameSignature, signature, Bool.and_eq_true, sameLists_iff, sameResult_iff,
    eraseList_eq_map, List.map_map, Prod.mk.injEq]
  rfl

/-- Methods of one signature have as many parameters, of the same types, and results that are both
absent or of the same type. -/
theorem Method.agree_of_signature_eq {first second : Method}
    (same : first.signature = second.signature) :
    List.Forall₂ (fun param param' => param.type.sameAs param'.type = true) first.params
        second.params ∧
      Option.Rel (fun type type' => type.sameAs type' = true) first.result second.result := by
  obtain ⟨params, result⟩ := Prod.mk.inj same
  constructor
  · rw [← List.forall₂_eq_eq_eq, List.forall₂_map_left_iff, List.forall₂_map_right_iff] at params
    exact params.imp fun _ _ same => (sameAs_iff _ _).mpr same
  · exact rel_of_sameResult ((sameResult_iff _ _).mpr result)

namespace Program

variable {program : Program} {decl next ancestor : ClassDecl}

/-! ## Ancestors in a hierarchy without cycles -/

theorem Extends.mem_classes (extends_ : program.Extends decl next) : next ∈ program.classes := by
  obtain ⟨name, -, found⟩ := Option.bind_eq_some_iff.mp extends_
  exact List.mem_of_find?_eq_some found

theorem withoutName_comm (pool : List ClassDecl) (first second : String) :
    withoutName (withoutName pool first) second = withoutName (withoutName pool second) first := by
  unfold withoutName
  rw [List.filter_comm]

/-- A walk does not miss a name that its base does not lead to. -/
theorem ancestorsIn_withoutName {pool : List ClassDecl} {base : Option String} {removed : String}
    (known : ∀ name next, pool.find? (fun decl => decl.name = name) = some next →
      program.class? name = some next)
    (apart : ∀ first, base = some first → ¬ReflTransGen program.LeadsTo first removed) :
    ancestorsIn (withoutName pool removed) base = ancestorsIn pool base := by
  fun_induction ancestorsIn pool base with
  | case1 pool => exact ancestorsIn_none _
  | case2 pool name missing =>
    refine ancestorsIn_of_missing ?_
    rw [find?_withoutName_eq, missing, ite_self]
  | case3 pool name next found ih =>
    have different : name ≠ removed := by
      rintro rfl
      exact apart name rfl .refl
    have found' : (withoutName pool removed).find? (fun decl => decl.name = name) = some next := by
      rw [find?_withoutName_eq, if_neg different, found]
    rw [ancestorsIn_of_found found', withoutName_comm,
      ih (fun other decl found => known other decl (find?_withoutName found)) ?_]
    intro first starts reaches
    exact apart name rfl (.head ((leadsTo_iff (known name next found)).mpr starts) reaches)

section Clean

variable (clean : program.analyze.isClean = true) (mem : decl ∈ program.classes)

include clean mem

/-- If nothing is wrong with a program then the ancestors of a class are the class that it extends and
the ancestors of that one. -/
theorem ancestors_of_extends (extends_ : program.Extends decl next) :
    program.ancestors decl = next :: program.ancestors next := by
  have distinct := nodup_of_isClean clean
  have step : program.LeadsTo decl.name next.name :=
    (leadsTo_iff (class?_of_mem distinct mem)).mpr extends_.base_eq
  have found := class?_of_mem distinct extends_.mem_classes
  have different : next.name ∉ [decl.name] := by
    intro same
    rw [List.mem_singleton.mp same] at step
    exact not_transGen_of_isClean clean _ (.single step)
  have left := program.find?_withoutName_classes decl.name next.name
  rw [if_neg different, found] at left
  rw [ancestors, extends_.base_eq, ancestorsIn_of_found left, withoutName_comm, ancestors,
    ancestorsIn_withoutName (fun _ _ => find?_withoutName)]
  intro first starts reaches
  exact not_transGen_of_isClean clean decl.name
    (.head' step (.head ((leadsTo_iff found).mpr starts) reaches))

/-! ## Methods along a chain of bases -/

/-- The method that a class overrides is that of the class which it extends, or else the one which
that class overrides. -/
theorem overridden?_of_extends (extends_ : program.Extends decl next) (name : String) :
    program.overridden? decl name = (next.method? name).or (program.overridden? next name) := by
  rw [overridden?, ancestors_of_extends clean mem extends_, List.findSome?_cons]
  cases next.method? name <;> rfl

/-- A method has the signature of the nearest method that it overrides if nothing is wrong with the
program. -/
theorem signature_eq_of_overridden? {method base : Method} (own : method ∈ decl.methods)
    (nearest : program.overridden? decl method.name = some base) :
    base.signature = method.signature := by
  have fine := checkOverride_of_isClean clean mem own
  rw [checkOverride, nearest] at fine
  dsimp only at fine
  split_ifs at fine with same
  exact (Method.sameSignature_iff base method).mp same

/-- For a method of a class above, there is a nearest method of its name above a class, and it has the
same signature. -/
theorem exists_overridden? (above : TransGen program.Extends decl ancestor) {method : Method}
    (own : method ∈ ancestor.methods) :
    ∃ base, program.overridden? decl method.name = some base ∧
      base.signature = method.signature := by
  induction above using TransGen.head_induction_on with
  | single extends_ =>
    have found := method?_of_isClean clean extends_.mem_classes own
    exact ⟨method, by rw [overridden?_of_extends clean mem extends_, found, Option.some_or], rfl⟩
  | @head decl next extends_ _ ih =>
    obtain ⟨base, nearest, same⟩ := ih extends_.mem_classes
    rw [overridden?_of_extends clean mem extends_, nearest]
    cases between : next.method? method.name with
    | none => exact ⟨base, rfl, same⟩
    | some found =>
      -- the class in between declares the name as well and was compared in its turn
      have named : found.name = method.name := by simpa using List.find?_some between
      rw [← named] at nearest
      have agrees := signature_eq_of_overridden? clean extends_.mem_classes
        (List.mem_of_find?_eq_some between) nearest
      exact ⟨found, rfl, agrees.symm.trans same⟩

end Clean

/-- If nothing is wrong with a program then two methods of one name, one of a class and one of a class
above it, have as many parameters, of the same types, and results that are both absent or of the same
type. -/
theorem signatures_agree_of_isClean (clean : program.analyze.isClean = true)
    (mem : decl ∈ program.classes) (above : TransGen program.Extends decl ancestor)
    {method other : Method} (own : method ∈ decl.methods) (others : other ∈ ancestor.methods)
    (named : method.name = other.name) :
    List.Forall₂ (fun param param' => param.type.sameAs param'.type = true) method.params
        other.params ∧
      Option.Rel (fun type type' => type.sameAs type' = true) method.result other.result := by
  obtain ⟨base, nearest, same⟩ := exists_overridden? clean mem above others
  rw [← named] at nearest
  have agrees := signature_eq_of_overridden? clean mem own nearest
  exact Method.agree_of_signature_eq (agrees.symm.trans same)

/-- A method that takes an array of integers and returns a boolean value. -/
def searching (line : Nat) : Method :=
  ⟨"search", [⟨"items", ⟨"Array", [⟨"Integer", [], ⟨line, 35⟩⟩], ⟨line, 29⟩⟩, ⟨line, 21⟩⟩],
    some ⟨"Boolean", [], ⟨line, 47⟩⟩, [], ⟨line, 14⟩⟩

/-- A class with that method. -/
def searchingTier (name : String) (base : Option String) (line : Nat) : ClassDecl :=
  ⟨name, base, [], [.method (searching line)], ⟨line, 1⟩⟩

/-- Four classes in a chain of bases, one of which does not declare the method of the others. -/
def skippingTier : Program :=
  ⟨[searchingTier "D" (some "C") 1, searchingTier "C" (some "B") 2,
    ⟨"B", some "A", [], [], ⟨3, 1⟩⟩, searchingTier "A" none 4]⟩

/-- Nothing is wrong with four classes that declare one method, except for one of them. -/
theorem signatures_agree_skippingTier :
    skippingTier.analyze.isClean = true ∧
      TransGen skippingTier.Extends (searchingTier "D" (some "C") 1) (searchingTier "A" none 4) ∧
      List.Forall₂ (fun param param' => param.type.sameAs param'.type = true) (searching 1).params
        (searching 4).params ∧
      Option.Rel (fun type type' => type.sameAs type' = true) (searching 1).result
        (searching 4).result := by
  have clean : skippingTier.analyze.isClean = true := by decide +kernel
  have declares : skippingTier.Extends (searchingTier "D" (some "C") 1)
      (searchingTier "C" (some "B") 2) := rfl
  have skips : skippingTier.Extends (searchingTier "C" (some "B") 2)
      ⟨"B", some "A", [], [], ⟨3, 1⟩⟩ := rfl
  have ends : skippingTier.Extends ⟨"B", some "A", [], [], ⟨3, 1⟩⟩ (searchingTier "A" none 4) := rfl
  have above := TransGen.head declares (.head skips (.single ends))
  exact ⟨clean, above, signatures_agree_of_isClean clean List.mem_cons_self above
    List.mem_cons_self List.mem_cons_self rfl⟩

end Program

end ClassLang
