import ClassLang.Proofs.Printing.Declaration

/-! # Printing and the limit on nesting

Reading the source text of a program that was read gives the program again if the levels that are
counted on it are no more than the limit allows, and nests too deeply if they are more. The text that
was read may have been nested less deeply than that: printing adds parentheses around every
operator. -/

namespace ClassLang

open Reading Grammar

/-- The source text of a program that was read is nested too deeply just when the levels that the
program is counted to have are too many; if they are not, it is read as the program again. -/
theorem Program.ofText_source_tooDeep_iff {text : String} {program : Program}
    (read : Program.ofText text = .ok program) :
    ((∃ position, Program.ofText program.source = .error ⟨.tooDeep, position⟩) ↔
        maxDepth < program.nesting) ∧
      (program.nesting ≤ maxDepth →
        ∃ again, Program.ofText program.source = .ok again ∧ again.erase = program.erase) := by
  rcases Program.ofText_source_of_lexical (Program.lexical_of_ofText read) with
    ⟨room, again, run, same⟩ | ⟨beyond, deep⟩
  · refine ⟨⟨fun ⟨position, deep⟩ => ?_, fun beyond => ?_⟩, fun _ => ⟨again, run, same⟩⟩
    · rw [run] at deep
      cases deep
    · exact absurd room (Nat.not_le.mpr beyond)
  · exact ⟨⟨fun _ => beyond, fun _ => deep⟩, fun room => absurd room (Nat.not_le.mpr beyond)⟩

/-- A class with a field whose initial value adds up ones. -/
def sumText (operators : Nat) : String :=
  "class A is var a : 1" ++ String.join (List.replicate operators "+1") ++ " end"

namespace Program

/-- A text whose levels are counted spells a program that has them. -/
theorem exists_of_map_nesting {text : String} {levels : Nat}
    (counted : (ofText text).toOption.map nesting = some levels) :
    ∃ program, ofText text = .ok program ∧ program.nesting = levels := by
  cases read : ofText text with
  | ok program =>
    rw [read] at counted
    exact ⟨program, rfl, Option.some.inj counted⟩
  | error fault =>
    rw [read] at counted
    cases counted

/-- A sum of three ones enters five levels when it is printed, and is read again. -/
theorem ofText_source_sumText :
    ∃ program, ofText (sumText 2) = .ok program ∧ program.nesting = 5 ∧
      (¬∃ position, ofText program.source = .error ⟨.tooDeep, position⟩) ∧
      ∃ again, ofText program.source = .ok again ∧ again.erase = program.erase := by
  have counted : (ofText (sumText 2)).toOption.map nesting = some 5 := by
    decide +kernel
  obtain ⟨program, read, levels⟩ := exists_of_map_nesting counted
  have room : program.nesting ≤ maxDepth := levels ▸ by decide
  obtain ⟨deep, again⟩ := ofText_source_tooDeep_iff read
  exact ⟨program, read, levels, mt deep.mp (Nat.not_lt.mpr room), again room⟩

/-- A sum with sixty-two operators can be read, but not the text that is printed for it. -/
theorem tooDeep_source_sumText :
    ∃ program, ofText (sumText 62) = .ok program ∧
      ∃ position, ofText program.source = .error ⟨.tooDeep, position⟩ := by
  have counted : (ofText (sumText 62)).toOption.map nesting =
      some (maxDepth + 1) := by decide +kernel
  obtain ⟨program, read, levels⟩ := exists_of_map_nesting counted
  rcases ofText_source_of_lexical (lexical_of_ofText read) with
    ⟨room, -⟩ | ⟨-, deep⟩
  · omega
  · exact ⟨program, read, deep⟩

end Program

end ClassLang
