import ClassLang.Proofs.Lowering.Assembly
import Mathlib.Data.List.ProdSigma

/-! # Labels of an artifact

No label stands twice in an artifact, every jump goes to a label in the code of its own method, and
the label table of a method holds exactly the places of its labels. -/

namespace ClassLang

open List

variable {method : MethodCode} {label : Label}

/-! ## Targets of jumps -/

/-- The label that an instruction may go to. -/
def Instruction.target? : Instruction → Option Label
  | .jump target => some target
  | .jumpIfFalse target => some target
  | _ => none

/-- The labels that jumps in code go to. -/
def targetsIn (code : List Instruction) : List Label := code.filterMap Instruction.target?

@[simp] theorem targetsIn_append (first second : List Instruction) :
    targetsIn (first ++ second) = targetsIn first ++ targetsIn second :=
  filterMap_append

theorem targetsIn_of_straight {code : List Instruction}
    (straight : code.all Instruction.isStraight = true) : targetsIn code = [] := by
  refine filterMap_eq_nil_iff.mpr fun instruction member => ?_
  have stays := all_eq_true.mp straight instruction member
  cases instruction <;> first | rfl | cases stays

/-- The targets in a branch: its own labels and those in its parts. -/
theorem targetsIn_branchCode {test : List Instruction}
    (straight : test.all Instruction.isStraight = true) (first second : Label)
    (body alternative : List Instruction) :
    targetsIn (branchCode first second test body alternative) =
      first :: (targetsIn body ++ second :: targetsIn alternative) := by
  simp only [branchCode, targetsIn_append, targetsIn_of_straight straight]
  change first :: (targetsIn body ++ [second] ++ targetsIn alternative ++ []) = _
  rw [append_nil, append_assoc, singleton_append]

/-- The targets in a loop: its own labels and those in its body. -/
theorem targetsIn_loopCode {test : List Instruction}
    (straight : test.all Instruction.isStraight = true) (first second : Label)
    (body : List Instruction) :
    targetsIn (loopCode first second test body) = second :: (targetsIn body ++ [first]) := by
  simp only [loopCode, targetsIn_append, targetsIn_of_straight straight]
  rfl

/-- Jumps in the code of statements go to labels in it, or to the label behind the innermost loop
around them. -/
theorem Stmt.Emits.mem_labelsIn_of_target {exit? : Option Label} {emitter final : Emitter}
    {block : List Stmt} {code : List Instruction}
    (emits : Stmt.Emits exit? emitter block code final) {target : Label}
    (jumps : target ∈ targetsIn code) : target ∈ labelsIn code ∨ exit? = some target := by
  induction emits with
  | nothing => cases jumps
  | sequence _ _ first second =>
    rw [targetsIn_append, mem_append] at jumps
    rw [labelsIn_append, mem_append]
    rcases jumps with jumps | jumps
    · exact (first jumps).imp .inl id
    · exact (second jumps).imp .inr id
  | assign lowered =>
    rw [targetsIn_of_straight (Frame.straight_assignCode lowered)] at jumps
    cases jumps
  | declare lowered | ret lowered =>
    rw [targetsIn_append, targetsIn_of_straight (Expr.straight_lower lowered)] at jumps
    cases jumps
  | eval lowered =>
    rw [targetsIn_of_straight (straight_evalCode (Expr.straight_lower lowered))] at jumps
    cases jumps
  | leave =>
    obtain rfl : target = _ := mem_singleton.mp jumps
    exact .inr rfl
  | branch lowered | alternative lowered =>
    have straight := Expr.straight_lower lowered
    rw [targetsIn_branchCode straight] at jumps
    rw [labelsIn_branchCode straight]
    simp only [mem_cons, mem_append] at jumps ⊢
    grind [targetsIn]
  | loop lowered _ repeated =>
    -- leaving the body of the loop goes to the loop's own second label
    have straight := Expr.straight_lower lowered
    rw [targetsIn_loopCode straight] at jumps
    rw [labelsIn_loopCode straight]
    simp only [mem_cons, mem_append] at jumps ⊢
    grind

/-! ## The label table -/

section Table

/-- In a list of entries with distinct keys, looking a key up finds its entry. -/
theorem lookup_eq_some_iff_mem {α β : Type} [DecidableEq α] {entries : List (α × β)}
    (distinct : (entries.map Prod.fst).Nodup) {key : α} {value : β} :
    entries.lookup key = some value ↔ (key, value) ∈ entries := by
  induction entries with
  | nil => simp
  | cons entry rest ih =>
    rw [map_cons, nodup_cons] at distinct
    rw [lookup_cons, mem_cons]
    by_cases here : key = entry.1
    · -- no later entry has the key
      have only : (key, value) ∉ rest := fun later =>
        distinct.1 (mem_map.mpr ⟨_, later, here⟩)
      rw [beq_iff_eq.mpr here, or_iff_left only, Prod.ext_iff, Option.some_inj]
      exact ⟨fun same => ⟨here, same.symm⟩, fun same => same.2.symm⟩
    · rw [beq_false_of_ne here]
      simp [ih distinct.2, Prod.ext_iff, here]

/-- Where labels are distinct, no entry is dropped. -/
theorem lastOfRuns_eq_self {entries : List (Label × Nat)}
    (distinct : (entries.map Prod.fst).Nodup) : lastOfRuns entries = entries := by
  fun_induction lastOfRuns entries with
  | case1 first second rest same => simp [same] at distinct
  | case2 first second rest _ ih => rw [ih (nodup_cons.mp distinct).2]
  | case3 => rfl

variable {code : List Instruction}

variable (distinct : (labelsIn code).Nodup)

include distinct

/-- Where labels are distinct, the label table is a rearrangement of the labels with their
indices. -/
theorem labelTable_perm : (labelTable code).Perm (labelsFrom 0 code) := by
  have sorted := mergeSort_perm (labelsFrom 0 code) fun first second => first.1.name ≤ second.1.name
  unfold labelTable
  rw [lastOfRuns_eq_self]
  · exact sorted
  · rw [(sorted.map Prod.fst).nodup_iff, map_labelsFrom]
    exact distinct

/-- Where labels are distinct, the label table holds exactly their places. -/
theorem mem_labelTable {index : Nat} :
    (label, index) ∈ labelTable code ↔ code[index]? = some (.label label) := by
  rw [(labelTable_perm distinct).mem_iff, mem_labelsFrom]
  simp

/-- The indices in the label table are distinct, as only one label stands at an index. -/
theorem nodup_indices_labelTable : ((labelTable code).map Prod.snd).Nodup := by
  have keys : ((labelTable code).map Prod.fst).Nodup := by
    rw [((labelTable_perm distinct).map Prod.fst).nodup_iff, map_labelsFrom]
    exact distinct
  refine (List.Nodup.of_map Prod.fst keys).map_on ?_
  rintro ⟨label, index⟩ listed ⟨label', index'⟩ listed' same
  obtain rfl : index = index' := same
  have stands := (mem_labelTable distinct).mp listed
  rw [(mem_labelTable distinct).mp listed'] at stands
  cases stands
  rfl

end Table

/-- The index that a label has in the table of a method. -/
def MethodCode.indexOf? (method : MethodCode) (label : Label) : Option Nat :=
  method.labels.lookup label

/-- The label that an index has in the table of a method. -/
def MethodCode.labelAt? (method : MethodCode) (index : Nat) : Option Label :=
  (method.labels.map Prod.swap).lookup index

/-- A label is looked up by the index where it stands. -/
theorem MethodCode.labelAt?_eq_some (distinct : (labelsIn method.code).Nodup) {index : Nat} :
    method.labelAt? index = some label ↔ method.code[index]? = some (.label label) := by
  have keys : ((method.labels.map Prod.swap).map Prod.fst).Nodup := by
    rw [map_map]
    exact nodup_indices_labelTable distinct
  rw [MethodCode.labelAt?, lookup_eq_some_iff_mem keys, ← mem_labelTable distinct]
  rw [mem_map_swap]
  rfl

/-- An index is looked up by the label that stands there. -/
theorem MethodCode.indexOf?_eq_some (distinct : (labelsIn method.code).Nodup) {index : Nat} :
    method.indexOf? label = some index ↔ method.code[index]? = some (.label label) := by
  constructor
  · exact stands_of_jumpTarget
  · exact fun stands => jumpTarget_eq_some stands fun _ also => index_unique distinct also stands

/-! ## Methods -/

namespace Program

variable {program : Program} {low high : Nat} {parts : MethodParts}

section Assembled

variable (assembles : program.Assembles low method parts high)

include assembles

/-- The labels of a method are those in the code of its statements. -/
theorem Assembles.labelsIn_eq : labelsIn method.code = labelsIn parts.body := by
  rw [assembles.code_eq, MethodParts.code, labelsIn_append, labelsIn_append,
    labelsIn_of_straight assembles.straight_fields, nil_append]
  rcases assembles.closing_cases with closing | closing | closing <;> rw [closing] <;>
    exact append_nil _

/-- The jumps of a method are those in the code of its statements. -/
theorem Assembles.targetsIn_eq : targetsIn method.code = targetsIn parts.body := by
  rw [assembles.code_eq, MethodParts.code, targetsIn_append, targetsIn_append,
    targetsIn_of_straight assembles.straight_fields, nil_append]
  rcases assembles.closing_cases with closing | closing | closing <;> rw [closing] <;>
    exact append_nil _

/-- The code of the statements of a method has the shape of the code of a block that no loop
surrounds, or there are none. -/
theorem Assembles.emits :
    ∃ emitter block final, Stmt.Emits none emitter block parts.body final ∧
      emitter.nextLabel = low ∧ final.nextLabel = high := by
  cases assembles with
  | init _ _ lowered => exact ⟨_, _, _, Stmt.emits_lowerBlock _ lowered, rfl, rfl⟩
  | method _ _ lowered _ => exact ⟨_, _, _, Stmt.emits_lowerBlock _ lowered, rfl, rfl⟩
  -- the entry has no statements of its own, so any emitter that stands at its first label will do
  | entry => exact ⟨⟨⟨program, ⟨"", none, [], [], .start⟩, .empty⟩, low⟩, [], _, .nothing, rfl, rfl⟩

/-- The labels of a method are those that were taken for it. -/
theorem Assembles.numbered : Numbered low high method.code ∧ low ≤ high := by
  obtain ⟨emitter, block, final, emits, rfl, rfl⟩ := assembles.emits
  refine ⟨emits.numbered.perm ?_, emits.nextLabel_le⟩
  rw [assembles.labelsIn_eq]

end Assembled

/-- The labels of methods are those that were taken for them. -/
theorem AssemblesAll.numbered {methods : List MethodCode}
    (all : program.AssemblesAll low methods high) :
    Numbered low high (methods.flatMap MethodCode.code) ∧ low ≤ high := by
  induction all with
  | nil => exact ⟨.of_labelsIn_eq_nil rfl, Nat.le_refl _⟩
  | cons first _ ih =>
    obtain ⟨here, grown⟩ := first.numbered
    obtain ⟨later, grown'⟩ := ih
    rw [flatMap_cons]
    exact ⟨here.append later grown grown', Nat.le_trans grown grown'⟩

end Program

/-- All code of an artifact. -/
def Artifact.code (artifact : Artifact) : List Instruction :=
  (artifact.classes.flatMap ClassCode.methods).flatMap MethodCode.code

/-- No label stands twice in an artifact, every jump in a method goes to a label of that method, and
the label table of a method holds exactly the places of its labels. So looking up the index of a
label and the label at an index are inverse to each other. -/
theorem Program.labels_lower {program : Program} {artifact : Artifact}
    (lowered : program.lower = .ok artifact) :
    (labelsIn artifact.code).Nodup ∧
      ∀ decl ∈ artifact.classes, ∀ method ∈ decl.methods,
        (∀ target ∈ targetsIn method.code, target ∈ labelsIn method.code) ∧
        (∀ label index, (label, index) ∈ method.labels ↔
          method.code[index]? = some (.label label)) ∧
        (∀ label index, method.indexOf? label = some index ↔ (label, index) ∈ method.labels) ∧
        (∀ label index, method.labelAt? index = some label ↔ (label, index) ∈ method.labels) := by
  obtain ⟨high, all⟩ := Program.assemblesAll_lower lowered
  refine ⟨all.numbered.1.distinct, fun decl declared method owned => ?_⟩
  obtain ⟨low, parts, high', assembles⟩ := Program.exists_parts_of_lower lowered declared owned
  have distinct : (labelsIn method.code).Nodup := assembles.numbered.1.distinct
  have places (label : Label) (index : Nat) : (label, index) ∈ method.labels ↔
      method.code[index]? = some (.label label) := mem_labelTable distinct
  refine ⟨fun target jumps => ?_, places, fun label index => ?_, fun label index => ?_⟩
  · obtain ⟨emitter, block, final, emits, -, -⟩ := assembles.emits
    rw [assembles.targetsIn_eq] at jumps
    rw [assembles.labelsIn_eq]
    -- no loop surrounds the statements of a method, so no jump leaves them
    exact (emits.mem_labelsIn_of_target jumps).resolve_right nofun
  · rw [places, MethodCode.indexOf?_eq_some distinct]
  · rw [places, MethodCode.labelAt?_eq_some distinct]

/-- Two classes: in the first a loop is left from within a branch, in the second a branch has an
alternative. -/
def leavingLoops : Program :=
  let here : Position := ⟨1, 1⟩
  let test : Expr := .binary .lt (.int "1" here) (.int "2" here) here
  let run : Method :=
    ⟨"run", [], none, [.loop test [.branch test [.leave here] none here] here], here⟩
  let main : Method := ⟨"main", [], none, [.branch test [] (some []) here], here⟩
  ⟨[⟨"A", none, [], [.method run], here⟩, ⟨"B", none, [], [.method main], here⟩]⟩

/-- The six labels of these classes are distinct and each method has the places of its own. -/
theorem Program.labels_leavingLoops : ∃ artifact, leavingLoops.lower = .ok artifact ∧
    (labelsIn artifact.code).length = 6 ∧ (labelsIn artifact.code).Nodup ∧
      ∀ decl ∈ artifact.classes, ∀ method ∈ decl.methods,
        (∀ target ∈ targetsIn method.code, target ∈ labelsIn method.code) ∧
        (∀ label index, (label, index) ∈ method.labels ↔
          method.code[index]? = some (.label label)) ∧
        (∀ label index, method.indexOf? label = some index ↔ (label, index) ∈ method.labels) ∧
        (∀ label index, method.labelAt? index = some label ↔ (label, index) ∈ method.labels) := by
  have lowered : ∃ artifact, leavingLoops.lower = .ok artifact ∧
      (labelsIn artifact.code).length = 6 := ⟨_, rfl, rfl⟩
  obtain ⟨artifact, lowered, six⟩ := lowered
  exact ⟨artifact, lowered, six, Program.labels_lower lowered⟩

end ClassLang
