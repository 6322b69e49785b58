import Mathlib.Data.List.Induction
import Mathlib.Data.List.TakeWhile
import ClassLang.Position
import ClassLang.Text.Lines

/-! # Positions and lines

The position reached behind some characters is told by their newlines: as many lines lie before it, and
its column counts the characters since the last of them (`Position.behind`). It grows with every
character. The line of that number, as a text is cut into lines, holds the next character at that
column, unless the character belongs to the end of a line (`Text.line_behind`). -/

namespace ClassLang

open List

namespace Position

/-- How many characters there are behind the last newline. -/
def sinceNewline (characters : List Char) : Nat :=
  (characters.reverse.takeWhile fun c => c ≠ '\n').length

/-- The position of the character that follows some characters at the start of a text. -/
def behind (characters : List Char) : Position :=
  { line := characters.count '\n' + 1
    column := sinceNewline characters + 1 }

/-- A position comes before another, in an earlier line or further left in the same line. -/
def Precedes (one two : Position) : Prop :=
  one.line < two.line ∨ one.line = two.line ∧ one.column < two.column

/-- Characters are passed one by one. -/
theorem after_start (characters : List Char) : start.after characters = behind characters := by
  induction characters using reverseRecOn with
  | nil => rfl
  | append_singleton before c ih =>
    rw [after_append, ih, after_cons, after_nil, advance, behind, behind, sinceNewline, sinceNewline,
      reverse_append, reverse_singleton, singleton_append]
    by_cases newline : c = '\n' <;> simp [newline]

/-- A position comes before the position behind the next character. -/
theorem precedes_advance (position : Position) (c : Char) : position.Precedes (position.advance c) := by
  unfold Precedes advance
  split <;> simp

theorem Precedes.trans {one two three : Position} (first : one.Precedes two)
    (second : two.Precedes three) : one.Precedes three := by
  unfold Precedes at *
  omega

/-- A position comes before the position behind further characters. -/
theorem precedes_after (position : Position) {characters : List Char} (some : characters ≠ []) :
    position.Precedes (position.after characters) := by
  induction characters generalizing position with
  | nil => exact (some rfl).elim
  | cons c rest ih =>
    have step := position.precedes_advance c
    by_cases last : rest = []
    · rw [last]
      exact step
    · exact step.trans (ih _ last)

/-- A position comes before the position behind further characters of a text. -/
theorem precedes_behind (before : List Char) {characters : List Char} (some : characters ≠ []) :
    (behind before).Precedes (behind (before ++ characters)) := by
  rw [← after_start, ← after_start, after_append]
  exact precedes_after _ some

/-- A character in front counts if no newline follows it. -/
theorem sinceNewline_cons (c : Char) (before : List Char) :
    sinceNewline (c :: before) =
      sinceNewline before + if c = '\n' ∨ '\n' ∈ before then 0 else 1 := by
  unfold sinceNewline
  rw [reverse_cons, takeWhile_append]
  by_cases newline : '\n' ∈ before
  · have stops : (before.reverse.takeWhile fun c => c ≠ '\n').length ≠ before.reverse.length := by
      intro all
      have whole := ( takeWhile_prefix _).eq_of_length all
      simpa using takeWhile_eq_self_iff.mp whole '\n' (mem_reverse.mpr newline)
    rw [if_neg stops, if_pos (.inr newline), Nat.add_zero]
  · have whole : before.reverse.takeWhile (fun c => c ≠ '\n') = before.reverse := by
      rw [takeWhile_eq_self_iff]
      intro d mem
      have other : d ≠ '\n' := fun same => newline (same ▸ mem_reverse.mp mem)
      simp [other]
    rw [if_pos (congrArg length whole), whole]
    by_cases first : c = '\n' <;> simp [first, newline]

end Position

/-- The line of a position, as a text is cut into lines, has the character of that position at its
column. A carriage return may be cut off. -/
theorem Text.cutLines_behind (before : List Char) {c : Char} (notNewline : c ≠ '\n')
    (notReturn : c ≠ '\r') (rest : List Char) :
    ∃ row, (cutLines (before ++ c :: rest))[before.count '\n']? = some row ∧
      row[Position.sinceNewline before]? = some c := by
  induction before with
  | nil =>
    rw [nil_append, cutLines, if_neg notNewline, if_neg fun cut => notReturn cut.1]
    cases cutLines rest with
    | nil => exact ⟨[c], rfl, rfl⟩
    | cons row rows => exact ⟨c :: row, rfl, rfl⟩
  | cons b before ih =>
    obtain ⟨row, found, here⟩ := ih
    rw [Position.sinceNewline_cons, cons_append, cutLines]
    by_cases newline : b = '\n'
    · rw [if_pos newline]
      exact ⟨row, by simp [newline, found], by simp [newline, here]⟩
    rw [if_neg newline, count_cons_of_ne newline]
    by_cases cut : b = '\r' ∧ (before ++ c :: rest).head? = some '\n'
    · -- the newline stands in front of the character, so the column starts anew behind it
      have mem : '\n' ∈ before := by
        cases before with
        | nil => exact absurd (Option.some.inj cut.2) notNewline
        | cons next before => simp [Option.some.inj cut.2]
      rw [if_pos cut]
      exact ⟨row, found, by simpa [mem] using here⟩
    rw [if_neg cut]
    cases rows : cutLines (before ++ c :: rest) with
    | nil => simp [rows] at found
    | cons first more =>
      rw [rows] at found
      by_cases mem : '\n' ∈ before
      · -- the character stands in a later line
        obtain ⟨count, counted⟩ := Nat.exists_eq_succ_of_ne_zero
          (Nat.ne_of_gt (count_pos_iff.mpr mem))
        refine ⟨row, ?_, by simpa [mem] using here⟩
        rw [counted] at found ⊢
        exact found
      · have none : before.count '\n' = 0 := count_eq_zero.mpr mem
        rw [none] at found ⊢
        cases found
        exact ⟨b :: row, rfl, by simpa [mem, newline] using here⟩

/-- The line shown for a position holds the character of that position at its column. -/
theorem Text.line_behind (before : List Char) {c : Char} (notNewline : c ≠ '\n')
    (notReturn : c ≠ '\r') (rest : List Char) (text : String)
    (split : text.toList = before ++ c :: rest) :
    (Text.line text (Position.behind before).line).toList[(Position.behind before).column - 1]? =
      some c := by
  obtain ⟨row, found, here⟩ := cutLines_behind before notNewline notReturn rest
  rw [Text.line, split, String.toList_ofList]
  change (((cutLines _)[before.count '\n']?).getD [])[Position.sinceNewline before]? = _
  rw [found]
  exact here

end ClassLang
