import ClassLang.Hierarchy
import ClassLang.Lowering.Frame

/-! # Fields of ancestors

The walk along bases that looks for a field is bounded by the number of classes, since bases may run
in a circle. It still comes to all ancestors of a class. -/

namespace ClassLang

variable {decl : ClassDecl}

/-- The classes of a pool without a name are found as before. -/
theorem find?_withoutName {pool : List ClassDecl} {name other : String}
    (found : (withoutName pool name).find? (fun decl => decl.name = other) = some decl) :
    pool.find? (fun decl => decl.name = other) = some decl := by
  have different : decl.name ≠ name := by
    have member := List.mem_of_find?_eq_some found
    simpa [withoutName] using (List.mem_filter.mp member).2
  have same : decl.name = other := by simpa using List.find?_some found
  rw [withoutName, List.find?_filter] at found
  rw [← found]
  refine congrArg (List.find? · pool) (funext fun decl' => ?_)
  by_cases equal : decl'.name = other
  · have kept : other ≠ name := same ▸ different
    simp [equal, kept]
  · simp [equal]

/-- The first field of a name in a row of classes, with its class. -/
def firstField? (classes : List ClassDecl) (name : String) : Option (ClassDecl × Field) :=
  classes.findSome? fun decl => (decl.field? name).map (Prod.mk decl)

/-- The first class comes first. -/
theorem firstField?_cons (decl : ClassDecl) (classes : List ClassDecl) (name : String) :
    firstField? (decl :: classes) name =
      match decl.field? name with
      | some field => some (decl, field)
      | none => firstField? classes name := by
  rw [firstField?, List.findSome?_cons]
  cases decl.field? name <;> rfl

namespace Program

variable {program : Program} {name : String}

/-- The first field of the classes met by following bases through a pool is found in as many steps as
the pool has classes. -/
theorem findField_of_ancestorsIn {pool : List ClassDecl} {base : Option String}
    (known : ∀ other decl, pool.find? (fun decl => decl.name = other) = some decl →
      program.class? other = some decl) {found : ClassDecl × Field}
    (first : firstField? (ancestorsIn pool base) name = some found) {budget : Nat}
    (enough : pool.length ≤ budget) (starts : decl.base = base) (lacks : decl.field? name = none) :
    program.findField name (budget + 1) decl = some found := by
  fun_induction ancestorsIn pool base generalizing budget decl with
  | case1 => cases first
  | case2 => cases first
  | case3 pool other next met ih =>
    -- both walks go on to the same class, and the pool loses it, so the budget lasts
    have shorter := length_withoutName_lt met
    obtain ⟨budget, rfl⟩ : ∃ less, budget = less + 1 := ⟨budget - 1, by omega⟩
    have goesOn : decl.base.bind program.class? = some next := by
      rw [starts]
      exact known other next met
    rw [findField, lacks]
    simp only [goesOn]
    rw [firstField?_cons] at first
    cases has : next.field? name with
    | some field =>
      rw [has] at first
      rw [findField, has]
      exact first
    | none =>
      rw [has] at first
      refine ih (fun other decl met => known other decl (find?_withoutName met)) first ?_ rfl has
      omega

/-- The first field of a class and its ancestors is found in more steps than there are classes. -/
theorem findField_eq_some {found : ClassDecl × Field}
    (first : firstField? (decl :: program.ancestors decl) name = some found) {budget : Nat}
    (enough : program.classes.length ≤ budget) :
    program.findField name (budget + 1) decl = some found := by
  rw [firstField?_cons] at first
  cases has : decl.field? name with
  | some field =>
    rw [has] at first
    rw [findField, has]
    exact first
  | none =>
    rw [has] at first
    exact findField_of_ancestorsIn (fun _ _ => find?_withoutName) first
      (Nat.le_trans (List.length_filter_le _ _) enough) rfl has

/-- The fields of a class and its ancestors are found. -/
theorem isSome_fieldOf? (has : (decl.field? name).isSome = true ∨
      ∃ ancestor ∈ program.ancestors decl, (ancestor.field? name).isSome = true) :
    (program.fieldOf? decl name).isSome = true := by
  have declared : (firstField? (decl :: program.ancestors decl) name).isSome = true := by
    simpa [firstField?, List.findSome?_isSome_iff] using has
  obtain ⟨found, first⟩ := Option.isSome_iff_exists.mp declared
  rw [fieldOf?, findField_eq_some first (Nat.le_refl _)]
  rfl

end Program

end ClassLang
