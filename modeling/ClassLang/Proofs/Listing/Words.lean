import ClassLang.Proofs.Lowering.Names
import ClassLang.Proofs.Printing.Source

/-! # Lines and words of a listing

What is written line by line can be told apart again: a text determines its lines if no line holds a
newline, a word ends where another character follows, and items of several lines end where the next
marked line stands. -/

namespace ClassLang

open Lexeme List

variable {text : String}

/-! ## Runs and groups -/

section Lists

variable {α β : Type} {first second : List α}

/-- A run of items with a property ends at the first item without it. -/
theorem append_inj_of_stop {holds : α → Prop} {rest others : List α}
    (all : ∀ item ∈ first, holds item) (all' : ∀ item ∈ second, holds item)
    (stop : ∀ item ∈ rest.head?, ¬holds item) (stop' : ∀ item ∈ others.head?, ¬holds item)
    (same : first ++ rest = second ++ others) : first = second ∧ rest = others := by
  induction first generalizing second with
  | nil =>
    cases second with
    | nil => exact ⟨rfl, same⟩
    | cons item second =>
      rw [nil_append] at same
      exact absurd (all' item mem_cons_self) (stop item (same ▸ rfl))
  | cons item first ih =>
    cases second with
    | nil =>
      rw [nil_append] at same
      exact absurd (all item mem_cons_self) (stop' item (same ▸ rfl))
    | cons other second =>
      obtain ⟨rfl, tail⟩ := List.cons.inj same
      obtain ⟨-, all⟩ := forall_mem_cons.mp all
      obtain ⟨-, all'⟩ := forall_mem_cons.mp all'
      obtain ⟨rfl, rest⟩ := ih all all' tail
      exact ⟨rfl, rest⟩

/-- Items are determined by their images if each is determined by its own. -/
theorem map_inj_of_mem {f : α → β}
    (each : ∀ item ∈ first, ∀ other ∈ second, f item = f other → item = other)
    (same : first.map f = second.map f) : first = second := by
  induction first generalizing second with
  | nil => exact (map_eq_nil_iff.mp same.symm).symm
  | cons item first ih =>
    cases second with
    | nil => cases same
    | cons other second =>
      obtain ⟨head, tail⟩ := List.cons.inj same
      rw [each item mem_cons_self other mem_cons_self head,
        ih (fun item mem other mem' => each item (mem_cons_of_mem _ mem) other
          (mem_cons_of_mem _ mem')) tail]

/-- Items that are each written as a marked head and an unmarked body are determined by what is
written, if each is determined by its head and its body. -/
theorem flatMap_inj_of_mark (marked : β → Prop) (head : α → β) (body : α → List β)
    (heads : ∀ item, marked (head item)) (bodies : ∀ item ∈ first, ∀ line ∈ body item, ¬marked line)
    (bodies' : ∀ item ∈ second, ∀ line ∈ body item, ¬marked line)
    (each : ∀ item ∈ first, ∀ other ∈ second, head item = head other → body item = body other →
      item = other) (same : (first.flatMap fun item => head item :: body item) =
      second.flatMap fun item => head item :: body item) : first = second := by
  have stop (items : List α) :
      ∀ line ∈ (items.flatMap fun item => head item :: body item).head?, ¬¬marked line := by
    cases items with
    | nil => nofun
    | cons item items =>
      rintro _ ⟨⟩
      exact not_not_intro (heads item)
  induction first generalizing second with
  | nil =>
    cases second with
    | nil => rfl
    | cons other second => cases same
  | cons item first ih =>
    cases second with
    | nil => cases same
    | cons other second =>
      obtain ⟨here, later⟩ := forall_mem_cons.mp bodies
      obtain ⟨here', later'⟩ := forall_mem_cons.mp bodies'
      obtain ⟨sameHead, tail⟩ := List.cons.inj same
      obtain ⟨sameBody, rest⟩ := append_inj_of_stop here here' (stop first) (stop second) tail
      rw [each item mem_cons_self other mem_cons_self sameHead sameBody,
        ih later later' (fun item mem other mem' => each item (mem_cons_of_mem _ mem) other
          (mem_cons_of_mem _ mem')) rest]

end Lists

/-! ## Lines -/

/-- Whether a text stays on one line. -/
def Flat (text : String) : Prop := '\n' ∉ text.toList

instance (text : String) : Decidable (Flat text) := inferInstanceAs (Decidable ('\n' ∉ text.toList))

@[simp] theorem flat_append {first second : String} :
    Flat (first ++ second) ↔ Flat first ∧ Flat second := by
  unfold Flat
  rw [String.toList_append, mem_append, not_or]

/-- Whether a text is made of visible characters: it has no blank, newline or control character. -/
def Visible (text : String) : Prop := ∀ c ∈ text.toList, ' ' < c

instance (text : String) : Decidable (Visible text) :=
  List.decidableBAll _ _

theorem visible_append {first second : String} :
    Visible (first ++ second) ↔ Visible first ∧ Visible second := by
  unfold Visible
  rw [String.toList_append, forall_mem_append]

theorem Visible.notMem (visible : Visible text) {c : Char} (hidden : ¬ ' ' < c) : c ∉ text.toList :=
  fun mem => hidden (visible c mem)

/-- Lines in sequence, each ended by a newline. -/
def unlines (lines : List String) : String := String.join (lines.map (· ++ "\n"))

theorem unlines_cons (line : String) (lines : List String) :
    unlines (line :: lines) = line ++ ("\n" ++ unlines lines) := by
  rw [unlines, map_cons, String.join_cons, String.append_assoc, ← unlines]

theorem unlines_append (first second : List String) :
    unlines (first ++ second) = unlines first ++ unlines second := by
  rw [unlines, map_append, String.join_append, ← unlines, ← unlines]

/-- Texts in sequence that consist of lines each. -/
theorem unlines_flatMap {α : Type} (items : List α) (lines : α → List String) :
    unlines (items.flatMap lines) = String.join (items.map fun item => unlines (lines item)) := by
  induction items with
  | nil => rfl
  | cons item items ih =>
    rw [flatMap_cons, unlines_append, ih, map_cons, String.join_cons]

/-- A text determines its lines. -/
theorem unlines_inj {first second : List String} (flat : ∀ line ∈ first, Flat line)
    (flat' : ∀ line ∈ second, Flat line) (same : unlines first = unlines second) :
    first = second := by
  unfold unlines at same
  induction first generalizing second with
  | nil =>
    cases second with
    | nil => rfl
    | cons line second => simp at same
  | cons line first ih =>
    cases second with
    | nil => simp at same
    | cons other second =>
      obtain ⟨here, later⟩ := forall_mem_cons.mp flat
      obtain ⟨here', later'⟩ := forall_mem_cons.mp flat'
      have characters := congrArg String.toList same
      simp only [map_cons, String.join_cons, String.toList_append, append_assoc] at characters
      have apart {text : String} (flat : Flat text) : ∀ c ∈ text.toList, c ≠ '\n' :=
        fun c mem newline => flat (newline ▸ mem)
      obtain ⟨sameLine, rest⟩ := append_inj_of_stop (apart here) (apart here')
        (by simp) (by simp) characters
      rw [String.toList_inj.mp sameLine,
        ih later later' (String.toList_inj.mp (append_cancel_left rest))]

/-! ## Words -/

section Words

variable {first second : String} {rest others : List Char}

theorem Lexeme.IsWord.all {text : String} (word : IsWord text) :
    ∀ c ∈ text.toList, isWordPart c = true := by
  obtain ⟨c, parts, spelling, start, all⟩ := word
  rw [spelling]
  exact forall_mem_cons.mpr ⟨isWordPart_of_isWordStart start, all⟩

theorem Lexeme.IsWord.notMem (word : IsWord text) {c : Char} (apart : isWordPart c = false) :
    c ∉ text.toList := by
  intro mem
  rw [word.all c mem] at apart
  cases apart

/-- A word is not empty and holds no comma. -/
theorem Lexeme.IsWord.plain (word : IsWord text) : text.toList ≠ [] ∧ ',' ∉ text.toList := by
  refine ⟨?_, word.notMem (by decide)⟩
  obtain ⟨c, parts, spelling, -⟩ := word
  rw [spelling]
  exact cons_ne_nil _ _

theorem Lexeme.IsWord.flat (word : IsWord text) : Flat text :=
  word.notMem (by decide)

/-- A word ends at the first character that is no part of words. -/
theorem Lexeme.IsWord.append_inj (word : IsWord first) (word' : IsWord second)
    (stop : ∀ c ∈ rest.head?, isWordPart c = false)
    (stop' : ∀ c ∈ others.head?, isWordPart c = false)
    (same : first.toList ++ rest = second.toList ++ others) : first = second ∧ rest = others := by
  obtain ⟨text, rest⟩ := append_inj_of_stop word.all word'.all
    (fun c mem => Bool.eq_false_iff.mp (stop c mem))
    (fun c mem => Bool.eq_false_iff.mp (stop' c mem)) same
  exact ⟨String.toList_inj.mp text, rest⟩

/-- So two words with the same text behind them are the same. -/
theorem Lexeme.IsWord.append_cons_inj (word : IsWord first) (word' : IsWord second) {c : Char}
    (apart : isWordPart c = false) (same : first.toList ++ c :: rest = second.toList ++ c :: others) :
    first = second ∧ rest = others := by
  have stop (rest : List Char) : ∀ other ∈ (c :: rest).head?, isWordPart other = false := by
    rintro _ ⟨⟩
    exact apart
  obtain ⟨text, rest⟩ := word.append_inj word' (stop rest) (stop others) same
  exact ⟨text, (List.cons.inj rest).2⟩

end Words

/-- Texts of one line with commas between them stay on one line. -/
theorem flat_commaSeparated {texts : List String} (flat : ∀ text ∈ texts, Flat text) :
    Flat (commaSeparated texts) := by
  cases texts with
  | nil => decide
  | cons text texts =>
    obtain ⟨here, later⟩ := forall_mem_cons.mp flat
    unfold Flat
    rw [toList_commaSeparated, mem_append, not_or]
    refine ⟨here, fun newline => ?_⟩
    obtain ⟨other, mem, inside⟩ := mem_flatMap.mp newline
    rw [mem_cons, mem_cons] at inside
    rcases inside with comma | blank | inside
    · exact absurd comma (by decide)
    · exact absurd blank (by decide)
    · exact later other mem inside

/-- Texts without commas are determined by their list. -/
theorem commaSeparated_inj {first second : List String}
    (plain : ∀ text ∈ first, text.toList ≠ [] ∧ ',' ∉ text.toList)
    (plain' : ∀ text ∈ second, text.toList ≠ [] ∧ ',' ∉ text.toList)
    (same : commaSeparated first = commaSeparated second) : first = second := by
  have characters := congrArg String.toList same
  have apart {text : String} (plain : text.toList ≠ [] ∧ ',' ∉ text.toList) :
      ∀ c ∈ text.toList, c ≠ ',' := fun c mem comma => plain.2 (comma ▸ mem)
  -- the texts behind the first are groups that start with a comma
  cases first with
  | nil =>
    cases second with
    | nil => rfl
    | cons text second =>
      rw [toList_commaSeparated] at characters
      have empty := (append_eq_nil_iff.mp characters.symm).1
      exact absurd empty (plain' text mem_cons_self).1
  | cons text first =>
    cases second with
    | nil =>
      rw [toList_commaSeparated] at characters
      have empty := (append_eq_nil_iff.mp characters).1
      exact absurd empty (plain text mem_cons_self).1
    | cons other second =>
      rw [toList_commaSeparated, toList_commaSeparated] at characters
      obtain ⟨here, later⟩ := forall_mem_cons.mp plain
      obtain ⟨here', later'⟩ := forall_mem_cons.mp plain'
      have stop (texts : List String) :
          ∀ c ∈ (texts.flatMap fun text => ',' :: ' ' :: text.toList).head?, ¬c ≠ ',' := by
        cases texts with
        | nil => nofun
        | cons text texts =>
          rintro _ ⟨⟩
          exact not_not_intro rfl
      obtain ⟨head, tail⟩ :=
        append_inj_of_stop (apart here) (apart here') (stop first) (stop second) characters
      have body {texts : List String}
          (plain : ∀ text ∈ texts, text.toList ≠ [] ∧ ',' ∉ text.toList) :
          ∀ text ∈ texts, ∀ c ∈ ' ' :: text.toList, ¬c = ',' := fun text mem =>
        forall_mem_cons.mpr ⟨by decide, apart (plain text mem)⟩
      have rest := flatMap_inj_of_mark (· = ',') (fun _ => ',')
        (fun text : String => ' ' :: text.toList) (fun _ => rfl) (body later) (body later')
        (fun text _ other _ _ same => String.toList_inj.mp (List.cons.inj same).2) tail
      rw [String.toList_inj.mp head, rest]

end ClassLang
