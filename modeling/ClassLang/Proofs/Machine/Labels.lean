import ClassLang.Proofs.Machine.Steps
import Mathlib.Data.List.Nodup

/-! # Labels

Labels with different numbers are different labels, whatever the number of digits. A jump goes to the
place of its label if that label stands in the code once, so code whose labels are distinct among
themselves and new to the code around it is placed there. -/

namespace ClassLang

open List

variable {label : Label}

/-! ## Numbers of labels -/

theorem ofDigitChars_zeros (count : Nat) (digits : List Char) :
    Nat.ofDigitChars 10 (replicate count '0' ++ digits) 0 = Nat.ofDigitChars 10 digits 0 := by
  induction count with
  | zero => rfl
  | succ count ih => exact ih

/-- A label tells its number. -/
theorem Label.numbered_injective : Function.Injective Label.numbered := by
  have spelled (number : Nat) : ∃ zeros, (Label.numbered number).name.toList =
      'L' :: (replicate zeros '0' ++ Nat.toDigits 10 number) := by
    refine ⟨4 - (toString number).length, ?_⟩
    simp [Label.numbered, Nat.toString_eq_repr, Nat.toList_repr]
  have reads (number : Nat) :
      Nat.ofDigitChars 10 ((Label.numbered number).name.toList.drop 1) 0 = number := by
    obtain ⟨zeros, spelling⟩ := spelled number
    rw [spelling, drop_one, tail_cons, ofDigitChars_zeros, Nat.ofDigitChars_ten_toDigits]
  intro first second same
  rw [← reads first, same, reads]

/-! ## Labels in code -/

/-- The label that an instruction defines. -/
def Instruction.place? : Instruction → Option Label
  | .label place => some place
  | _ => none

/-- The labels that stand in code. -/
def labelsIn (code : List Instruction) : List Label := code.filterMap Instruction.place?

@[simp] theorem labelsIn_append (first second : List Instruction) :
    labelsIn (first ++ second) = labelsIn first ++ labelsIn second :=
  filterMap_append

theorem Instruction.place?_eq_some {instruction : Instruction} :
    instruction.place? = some label ↔ instruction = .label label := by
  cases instruction <;> simp [place?]

/-- A label stands in code exactly if it stands at some index. -/
theorem mem_labelsIn {code : List Instruction} :
    label ∈ labelsIn code ↔ ∃ index : Nat, code[index]? = some (.label label) := by
  rw [labelsIn, mem_filterMap]
  constructor
  · rintro ⟨instruction, member, place⟩
    rw [Instruction.place?_eq_some.mp place] at member
    exact mem_iff_getElem?.mp member
  · rintro ⟨index, found⟩
    exact ⟨_, mem_of_getElem? found, rfl⟩

/-- The labels with their indices are the labels that stand in code. -/
theorem map_labelsFrom (code : List Instruction) (index : Nat) :
    (labelsFrom index code).map Prod.fst = labelsIn code := by
  induction code generalizing index with
  | nil => rfl
  | cons instruction rest ih =>
    have tail := ih (index + 1)
    cases instruction with
    | label place => exact congrArg (place :: ·) tail
    | _ => exact tail

/-- A label is listed with the indices where it stands. -/
theorem mem_labelsFrom {code : List Instruction} {index target : Nat} :
    (label, target) ∈ labelsFrom index code ↔
      ∃ offset : Nat, code[offset]? = some (.label label) ∧ target = index + offset := by
  induction code generalizing index with
  | nil => simp [labelsFrom]
  | cons instruction rest ih =>
    -- The first instruction counts if it is the label; all others are one index further.
    have split : (∃ offset : Nat, (instruction :: rest)[offset]? = some (.label label) ∧
        target = index + offset) ↔ (instruction = .label label ∧ target = index) ∨
          (label, target) ∈ labelsFrom (index + 1) rest := by
      rw [ih]
      constructor
      · rintro ⟨offset, found, same⟩
        cases offset with
        | zero => exact .inl ⟨Option.some.inj found, same⟩
        | succ offset => exact .inr ⟨offset, found, by omega⟩
      · rintro (⟨here, same⟩ | ⟨offset, found, same⟩)
        · exact ⟨0, congrArg some here, same⟩
        · exact ⟨offset + 1, found, by omega⟩
    rw [split]
    cases instruction <;> simp [labelsFrom, eq_comm]

/-- Every label that is listed is found. -/
theorem exists_lookup_lastOfRuns {entries : List (Label × Nat)}
    (listed : label ∈ entries.map Prod.fst) :
    ∃ target, (lastOfRuns entries).lookup label = some target := by
  fun_induction lastOfRuns entries with
  | case1 first second rest same ih =>
    refine ih ?_
    rcases mem_cons.mp listed with rfl | member
    · exact mem_cons.mpr (.inl same)
    · exact member
  | case2 first second rest _ ih =>
    rw [lookup_cons]
    by_cases here : label = first.1
    · exact ⟨first.2, by rw [beq_iff_eq.mpr here]⟩
    · rw [beq_false_of_ne here]
      exact ih ((mem_cons.mp listed).resolve_left here)
  | case3 entries short =>
    rcases entries with _ | ⟨first, _ | ⟨second, rest⟩⟩
    · cases listed
    · obtain rfl : label = first.1 := by simpa using listed
      exact ⟨first.2, by rw [lookup_cons, beq_self_eq_true]⟩
    · exact absurd rfl (short first second rest)

theorem lastOfRuns_subset (entries : List (Label × Nat)) : lastOfRuns entries ⊆ entries := by
  fun_induction lastOfRuns entries with
  | case1 first second rest _ ih => exact subset_cons_of_subset _ ih
  | case2 first second rest _ ih => exact cons_subset_cons _ ih
  | case3 entries => exact Subset.refl _

/-! ## Targets of jumps -/

section Targets

variable {code : List Instruction} {label : Label}

/-- A jump to a label that stands in the code goes somewhere. -/
theorem exists_jumpTarget (member : label ∈ labelsIn code) :
    ∃ target, jumpTarget code label = some target := by
  refine exists_lookup_lastOfRuns ?_
  have sorted := mergeSort_perm (labelsFrom 0 code) fun first second => first.1.name ≤ second.1.name
  rw [(sorted.map Prod.fst).mem_iff, map_labelsFrom]
  exact member

/-- A jump goes to a place of its label. -/
theorem stands_of_jumpTarget {target : Nat} (goes : jumpTarget code label = some target) :
    code[target]? = some (.label label) := by
  obtain ⟨before, after, split, _⟩ := lookup_eq_some_iff.mp goes
  have listed : (label, target) ∈ labelTable code := by simp [split]
  have sorted := mergeSort_perm (labelsFrom 0 code) fun first second => first.1.name ≤ second.1.name
  obtain ⟨offset, found, same⟩ := mem_labelsFrom.mp (sorted.mem_iff.mp (lastOfRuns_subset _ listed))
  rw [same, Nat.zero_add]
  exact found

/-- A jump goes to the place of its label if the label stands there only. -/
theorem jumpTarget_eq_some {index : Nat} (stands : code[index]? = some (.label label))
    (only : ∀ other : Nat, code[other]? = some (.label label) → other = index) :
    jumpTarget code label = some index := by
  obtain ⟨target, goes⟩ := exists_jumpTarget (mem_labelsIn.mpr ⟨index, stands⟩)
  rw [goes, only target (stands_of_jumpTarget goes)]

theorem Placed.exists_target {whole : List Instruction} {index : Nat}
    (placed : Placed whole index code) (member : .label label ∈ code) :
    ∃ target, jumpTarget whole label = some target := by
  obtain ⟨offset, found⟩ := mem_iff_getElem?.mp member
  exact ⟨_, placed.resolves offset label found⟩

/-- Among distinct labels, each stands at one index. -/
theorem index_unique (distinct : (labelsIn code).Nodup) {first second : Nat}
    (stands : code[first]? = some (.label label)) (also : code[second]? = some (.label label)) :
    first = second := by
  rw [← map_labelsFrom code 0] at distinct
  have listed {index : Nat} (found : code[index]? = some (.label label)) :
      (label, index) ∈ labelsFrom 0 code :=
    mem_labelsFrom.mpr ⟨index, found, (Nat.zero_add index).symm⟩
  have same := inj_on_of_nodup_map distinct (listed stands) (listed also) rfl
  exact congrArg Prod.snd same

/-- Code is placed in other code if its labels are distinct and new there. -/
theorem placed_of_fresh {before after : List Instruction} (distinct : (labelsIn code).Nodup)
    (fresh : ∀ label ∈ labelsIn code, label ∉ labelsIn before ∧ label ∉ labelsIn after) :
    Placed (before ++ code ++ after) before.length code := by
  have stands {offset : Nat} {instruction : Instruction}
      (found : code[offset]? = some instruction) :
      (before ++ code ++ after)[before.length + offset]? = some instruction := by
    obtain ⟨bound, _⟩ := List.getElem?_eq_some_iff.mp found
    rw [getElem?_append_left (by rw [length_append]; omega),
      getElem?_append_right (by omega), Nat.add_sub_cancel_left, found]
  refine ⟨fun _ _ => stands, fun offset label found => ?_⟩
  refine jumpTarget_eq_some (stands found) fun other also => ?_
  obtain ⟨notBefore, notAfter⟩ := fresh label (mem_labelsIn.mpr ⟨offset, found⟩)
  -- Another index of the label is one of the three parts, and two of them do not have it.
  by_cases inBefore : other < before.length
  · rw [append_assoc, getElem?_append_left inBefore] at also
    exact absurd (mem_labelsIn.mpr ⟨other, also⟩) notBefore
  · by_cases inCode : other < before.length + code.length
    · rw [getElem?_append_left (by rw [length_append]; omega),
        getElem?_append_right (by omega)] at also
      have same := index_unique distinct also found
      omega
    · rw [getElem?_append_right (by rw [length_append]; omega)] at also
      exact absurd (mem_labelsIn.mpr ⟨_, also⟩) notAfter

end Targets

end ClassLang
