import ClassLang.Proofs.Grammar.Derivation
import ClassLang.Proofs.Printing.Reading

/-! # Readings that match a rule

`Reading.Matches reading depth rule` says that a reading at a depth of nesting yields a value and
stops at a place exactly if the rule relates the value, the place where it starts and the place where
it stops. It is about the places of a complete text: one whose only end comes last, with no malformed
token. Readings put together match the rules put together. -/

namespace ClassLang

/-- Whether tokens are complete: the end of the text comes last and only there, and none of them is
malformed. -/
def Token.Complete (tokens : List Token) : Prop :=
  ∃ (body : List Token) (ending : Token), tokens = body ++ [ending] ∧ ending.kind = .endOfFile ∧
    ∀ token ∈ body, token.kind ≠ .malformed ∧ token.kind ≠ .endOfFile

/-- Nothing comes behind the end of a complete text. -/
theorem Token.Complete.eq_nil {token : Token} {rest : List Token}
    (complete : Token.Complete (token :: rest)) (ends : token.kind = .endOfFile) : rest = [] := by
  obtain ⟨body, ending, eq, -, well⟩ := complete
  cases body with
  | nil => exact (List.cons.inj eq).2
  | cons first body =>
    obtain ⟨rfl, -⟩ := List.cons.inj eq
    exact absurd ends (well token List.mem_cons_self).2

namespace Cursor

variable {kind : Kind} {token token' : Token} {rest : List Token} {last : Position}
  {good : Kind → Prop} {property : Token → Prop} {c₀ c₁ : Cursor}

/-- The reader that stands at a place. -/
def reader (cursor : Cursor) (depth : Nat) : Reader := ⟨cursor.tokens, cursor.last, depth⟩

/-- A token of a kind that ends something comes next. -/
def NextEnds (ends : Kind → Bool) (cursor : Cursor) : Prop :=
  ∃ token, cursor.next? = some token ∧ ends token.kind = true

/-! ## The next token -/

@[simp] theorem next?_cons : next? ⟨token :: rest, last⟩ = some token := rfl

/-- The next token is all that can stand behind a place. -/
@[simp] theorem step_cons :
    Step kind token' ⟨token :: rest, last⟩ c₁ ↔
      token.kind = kind ∧ token' = token ∧ c₁ = ⟨rest, token.position⟩ := by
  constructor
  · rintro ⟨same⟩
    exact ⟨same, rfl, rfl⟩
  · rintro ⟨same, rfl, rfl⟩
    exact ⟨same⟩

@[simp] theorem lacks_cons : Lacks property ⟨token :: rest, last⟩ ↔ ¬property token := by
  simp [Lacks]

theorem Step.eq_of_next? (step : Step kind token' c₀ c₁) (found : c₀.next? = some token) :
    token' = token :=
  Option.some_inj.mp (step.next?_eq.symm.trans found)

theorem Step.nextEnds {ends : Kind → Bool} (step : Step kind token c₀ c₁)
    (ending : ends kind = true) : c₀.NextEnds ends :=
  ⟨token, step.next?_eq, by rwa [step.kind_eq]⟩

/-- What starts with other kinds does not start with one that ends something. -/
theorem Starts.not_nextEnds {ends : Kind → Bool} (starts : Starts (ends · = false) c₀ c₁) :
    ¬c₀.NextEnds ends := by
  rintro ⟨token, found, ending⟩
  obtain ⟨kind, next, c, step, other, -⟩ := starts
  obtain rfl := step.eq_of_next? found
  rw [step.kind_eq, other] at ending
  cases ending

/-! ## Places of a complete text -/

/-- In a complete text a token comes next, and it is not malformed. -/
theorem exists_next (complete : Token.Complete c₀.tokens) :
    ∃ token rest last, c₀ = ⟨token :: rest, last⟩ ∧ token.kind ≠ .malformed := by
  obtain ⟨tokens, last⟩ := c₀
  obtain ⟨body, ending, rfl, isEnd, well⟩ := complete
  cases body with
  | nil => exact ⟨ending, [], last, rfl, by rw [isEnd]; nofun⟩
  | cons token body =>
    exact ⟨token, body ++ [ending], last, rfl, (well token List.mem_cons_self).1⟩

/-- Behind a token of a complete text other than its end the text is complete. -/
theorem Step.complete (step : Step kind token c₀ c₁) (goes : kind ≠ .endOfFile)
    (complete : Token.Complete c₀.tokens) : Token.Complete c₁.tokens := by
  obtain ⟨same⟩ := step
  obtain ⟨body, ending, eq, isEnd, well⟩ := complete
  cases body with
  | nil =>
    obtain ⟨rfl, -⟩ := List.cons.inj eq
    exact absurd (same.symm.trans isEnd) goes
  | cons first body =>
    obtain ⟨rfl, rfl⟩ := List.cons.inj eq
    exact ⟨body, ending, rfl, isEnd, fun token found => well token (List.mem_cons_of_mem _ found)⟩

theorem Passes.complete (passes : Passes c₀ c₁) (complete : Token.Complete c₀.tokens) :
    Token.Complete c₁.tokens := by
  induction passes with
  | refl => exact complete
  | step first goes _ ih => exact ih (first.complete goes complete)

/-- No token comes back. -/
theorem Passes.length_le (passes : Passes c₀ c₁) : c₁.tokens.length ≤ c₀.tokens.length := by
  induction passes with
  | refl => exact Nat.le_refl _
  | step first _ _ ih =>
    obtain ⟨-⟩ := first
    exact Nat.le_succ_of_le ih

theorem Starts.length_lt (starts : Starts good c₀ c₁) : c₁.tokens.length < c₀.tokens.length := by
  obtain ⟨kind, token, c, step, -, -, passes⟩ := starts
  obtain ⟨-⟩ := step
  exact Nat.lt_succ_of_le passes.length_le

end Cursor

open Cursor

/-- How a value is spelled between two places. -/
abbrev Rule (α : Type) := α → Cursor → Cursor → Prop

namespace Reading

variable {α β : Type} {reading reading' : Reading α} {next : α → Reading β} {depth : Nat}
  {cursor place : Cursor} {value : α} {result result' : α → Cursor → Prop} {rule rule' : Rule α}
  {kind : Kind}

/-! ## What succeeds -/

/-- Readings in a row succeed if each of them does. -/
theorem bind_eq_ok {reader after : Reader} {value : β} :
    (reading >>= next) reader = .ok value after ↔
      ∃ value' between, reading reader = .ok value' between ∧ next value' between = .ok value after := by
  cases run : reading reader with
  | ok value' between =>
    rw [bind_of_ok run]
    constructor
    · intro run'
      exact ⟨value', between, rfl, run'⟩
    · rintro ⟨_, _, ⟨⟩, run'⟩
      exact run'
  | error fault between => simp [bind_of_error run]

/-- A reading that returns to the depth from before succeeds if the reading does. -/
theorem restoringDepth_eq_ok {reader after : Reader} :
    restoringDepth reading reader = .ok value after ↔
      ∃ between, reading reader = .ok value between ∧
        after = { between with depth := reader.depth } := by
  rw [restoringDepth_eq]
  cases run : reading reader with
  | ok value' between =>
    constructor
    · rintro ⟨⟩
      exact ⟨between, rfl, rfl⟩
    · rintro ⟨_, ⟨⟩, rfl⟩
      rfl
  | error fault between => simp

/-! ## Matching at one place -/

/-- A reading at a place yields the values and stops at the places of a relation. -/
structure MatchesAt (reading : Reading α) (depth : Nat) (cursor : Cursor)
    (result : α → Cursor → Prop) : Prop where
  /-- What the reading yields is what the relation holds of. -/
  ok_iff : ∀ {value : α} {after : Reader}, reading (cursor.reader depth) = .ok value after ↔
    ∃ place, result value place ∧ after = place.reader depth
  /-- The reading does not go past the end of the text. -/
  passes : ∀ {value : α} {place : Cursor}, result value place → cursor.Passes place

/-- A reading that succeeds like another one matches what the other one matches. -/
theorem MatchesAt.of_iff (matched : MatchesAt reading' depth cursor result)
    (same : ∀ value after, reading (cursor.reader depth) = .ok value after ↔
      reading' (cursor.reader depth) = .ok value after) : MatchesAt reading depth cursor result :=
  ⟨(same _ _).trans matched.ok_iff, matched.passes⟩

theorem MatchesAt.congr (matched : MatchesAt reading depth cursor result)
    (same : ∀ value place, result value place ↔ result' value place) :
    MatchesAt reading depth cursor result' := by
  obtain rfl : result = result' := funext fun value => funext fun place => propext (same value place)
  exact matched

/-- A reading that succeeds matches what it yields. -/
theorem MatchesAt.of_ok (value : α) (place : Cursor)
    (run : reading (cursor.reader depth) = .ok value (place.reader depth))
    (goes : cursor.Passes place)
    (only : ∀ value' place', result value' place' ↔ value' = value ∧ place' = place) :
    MatchesAt reading depth cursor result := by
  constructor
  · intro value' after
    rw [run]
    constructor
    · rintro ⟨⟩
      exact ⟨place, (only value place).mpr ⟨rfl, rfl⟩, rfl⟩
    · rintro ⟨place', holds, rfl⟩
      obtain ⟨rfl, rfl⟩ := (only value' place').mp holds
      rfl
  · intro value' place' holds
    obtain ⟨-, rfl⟩ := (only value' place').mp holds
    exact goes

/-- A reading that fails matches nothing. -/
theorem MatchesAt.of_error {fault : Fault} {after : Reader}
    (run : reading (cursor.reader depth) = .error fault after)
    (none : ∀ value place, ¬result value place) : MatchesAt reading depth cursor result := by
  constructor
  · intro value after'
    rw [run]
    exact ⟨nofun, fun ⟨place, holds, _⟩ => absurd holds (none value place)⟩
  · intro value place holds
    exact absurd holds (none value place)

/-- Readings in a row match relations in a row. -/
theorem MatchesAt.bind {following : α → Cursor → β → Cursor → Prop}
    (first : MatchesAt reading depth cursor result) (second : ∀ value place, result value place →
      MatchesAt (next value) depth place (following value place)) :
    MatchesAt (reading >>= next) depth cursor fun value' place' =>
      ∃ value place, result value place ∧ following value place value' place' := by
  constructor
  · intro value' after
    rw [bind_eq_ok]
    constructor
    · rintro ⟨value, between, run, run'⟩
      obtain ⟨place, holds, rfl⟩ := first.ok_iff.mp run
      obtain ⟨place', holds', rfl⟩ := (second value place holds).ok_iff.mp run'
      exact ⟨place', ⟨value, place, holds, holds'⟩, rfl⟩
    · rintro ⟨place', ⟨value, place, holds, holds'⟩, rfl⟩
      exact ⟨value, place.reader depth, first.ok_iff.mpr ⟨place, holds, rfl⟩,
        (second value place holds).ok_iff.mpr ⟨place', holds', rfl⟩⟩
  · rintro value' place' ⟨value, place, holds, holds'⟩
    exact (first.passes holds).trans ((second value place holds).passes holds')

/-- What follows a reading that moves nowhere starts at the same place. -/
theorem MatchesAt.bind_look {following : β → Cursor → Prop} (value : α)
    (looked : reading (cursor.reader depth) = .ok value (cursor.reader depth))
    (matched : MatchesAt (next value) depth cursor following) :
    MatchesAt (reading >>= next) depth cursor following :=
  matched.of_iff fun _ _ => by rw [bind_of_ok looked]

/-! ## Matching at all places -/

/-- A reading matches a rule at every place of a complete text. -/
def Matches (reading : Reading α) (depth : Nat) (rule : Rule α) : Prop :=
  ∀ cursor : Cursor, Token.Complete cursor.tokens →
    MatchesAt reading depth cursor fun value place => rule value cursor place

theorem Matches.congr (matched : Matches reading depth rule)
    (same : ∀ value c₀ c₁, rule value c₀ c₁ ↔ rule' value c₀ c₁) : Matches reading depth rule' :=
  fun cursor complete => (matched cursor complete).congr fun value place => same value cursor place

theorem matches_pure (value : α) :
    Matches (pure value) depth fun value' c₀ c₁ => value' = value ∧ c₁ = c₀ :=
  fun cursor _ => .of_ok value cursor rfl .refl fun _ _ => Iff.rfl

/-- Readings in a row match rules in a row. -/
theorem Matches.bind {following : α → Rule β} (first : Matches reading depth rule)
    (second : ∀ value, Matches (next value) depth (following value)) :
    Matches (reading >>= next) depth fun value' c₀ c₂ =>
      ∃ value c₁, rule value c₀ c₁ ∧ following value value' c₁ c₂ := by
  intro cursor complete
  refine (first cursor complete).bind fun value place holds => ?_
  exact second value place (((first cursor complete).passes holds).complete complete)

/-- What is read is mapped to another form. -/
theorem Matches.map (matched : Matches reading depth rule) (form : α → β) :
    Matches (form <$> reading) depth fun value' c₀ c₁ =>
      ∃ value, rule value c₀ c₁ ∧ value' = form value := by
  rw [map_eq_pure_bind]
  refine (matched.bind fun value => matches_pure (form value)).congr fun value' c₀ c₁ => ?_
  constructor
  · rintro ⟨value, _, holds, rfl, rfl⟩
    exact ⟨value, holds, rfl⟩
  · rintro ⟨value, holds, rfl⟩
    exact ⟨value, c₁, holds, rfl, rfl⟩

theorem matches_failExpecting (expected : String) :
    Matches (failExpecting expected : Reading α) depth fun _ _ _ => False :=
  fun _ _ => .of_error rfl fun _ _ => id

/-! ## Single tokens -/

section Token

variable {token : Token} {rest : List Token} {last : Position}

theorem here_reader : (here : Reading _) (reader ⟨token :: rest, last⟩ depth) =
    .ok token.position (reader ⟨token :: rest, last⟩ depth) := rfl

theorem check_reader (condition : Token → Bool) :
    (check condition : Reading _) (reader ⟨token :: rest, last⟩ depth) =
      .ok (condition token) (reader ⟨token :: rest, last⟩ depth) := rfl

theorem peek_reader (well : token.kind ≠ .malformed) :
    (peek : Reading _) (reader ⟨token :: rest, last⟩ depth) =
      .ok token (reader ⟨token :: rest, last⟩ depth) := peek_cons well rest last depth

end Token

/-- A token of a kind is read. -/
theorem matches_expect (kind : Kind) (goes : kind ≠ .endOfFile) :
    Matches (expect kind) depth (Step kind) := by
  intro cursor complete
  obtain ⟨token, rest, last, rfl, well⟩ := exists_next complete
  by_cases same : token.kind = kind
  · subst same
    have step : Step token.kind token ⟨token :: rest, last⟩ ⟨rest, token.position⟩ := ⟨rfl⟩
    refine .of_ok token ⟨rest, token.position⟩ (expect_cons well rest last depth)
      (step.passes goes) fun token' place => ?_
    rw [step_cons, and_iff_right rfl]
  · have run : (expect kind : Reading _) (reader ⟨token :: rest, last⟩ depth) =
        (failExpecting kind.describe : Reading _) (reader ⟨token :: rest, last⟩ depth) :=
      (bind_of_ok (peek_reader well)).trans (by rw [if_neg same])
    refine .of_error (run.trans rfl) fun token' place holds => ?_
    exact same (step_cons.mp holds).1

/-- A name is read before what follows it. -/
theorem matchesAt_name_bind {next : String × Position → Reading β}
    {following : Token → Cursor → β → Cursor → Prop} (complete : Token.Complete cursor.tokens)
    (second : ∀ token place, Step .identifier token cursor place →
      MatchesAt (next (token.text, token.position)) depth place (following token place)) :
    MatchesAt (Grammar.name >>= next) depth cursor fun value c₂ =>
      ∃ token c₁, Step .identifier token cursor c₁ ∧ following token c₁ value c₂ := by
  rw [Grammar.name, bind_assoc]
  exact (matches_expect .identifier nofun cursor complete).bind second

/-- A name is read before what follows it, at all places. -/
theorem matches_name_bind {next : String × Position → Reading β} {following : Token → Rule β}
    (second : ∀ token : Token,
      Matches (next (token.text, token.position)) depth (following token)) :
    Matches (Grammar.name >>= next) depth fun value c₀ c₂ =>
      ∃ token c₁, Step .identifier token c₀ c₁ ∧ following token value c₁ c₂ := fun _ complete =>
  matchesAt_name_bind complete fun token place step =>
    second token place (step.complete nofun complete)

/-- Whether the next token has a property decides how the reading goes on. -/
theorem matches_check_bind {condition : Token → Bool} (property : Token → Prop)
    {next : Bool → Reading β} {yes no : Rule β}
    (same : ∀ token, condition token = true ↔ property token)
    (found : Matches (next true) depth yes) (missing : Matches (next false) depth no) :
    Matches (check condition >>= next) depth fun value c₀ c₁ =>
      (∃ token, c₀.next? = some token ∧ property token ∧ yes value c₀ c₁) ∨
        c₀.Lacks property ∧ no value c₀ c₁ := by
  intro cursor complete
  have found' := found cursor complete
  have missing' := missing cursor complete
  obtain ⟨token, rest, last, rfl, -⟩ := exists_next complete
  refine .bind_look (condition token) (check_reader condition) ?_
  by_cases holds : property token
  · rw [(same token).mpr holds]
    refine found'.congr fun value place => ?_
    simp [holds]
  · rw [Bool.eq_false_iff.mpr (mt (same token).mp holds)]
    refine missing'.congr fun value place => ?_
    simp [holds]

/-- A token of a kind is read if it comes next. -/
theorem matches_takeIf (kind : Kind) (goes : kind ≠ .endOfFile) :
    Matches (takeIf fun token => token.kind = kind) depth fun found c₀ c₁ =>
      (∃ token, found = some token ∧ Step kind token c₀ c₁) ∨
        found = none ∧ c₀.Lacks (fun token => token.kind = kind) ∧ c₁ = c₀ := by
  intro cursor complete
  obtain ⟨token, rest, last, rfl, -⟩ := exists_next complete
  have run := takeIf_cons kind token rest last depth
  by_cases same : token.kind = kind
  · rw [if_pos same] at run
    have step : Step kind token ⟨token :: rest, last⟩ ⟨rest, token.position⟩ := ⟨same⟩
    refine .of_ok (some token) ⟨rest, token.position⟩ run (step.passes goes) fun found place => ?_
    simp only [step_cons, lacks_cons, same, not_true, false_and, and_false, or_false, true_and]
    exact ⟨fun ⟨_, eq, same, eq'⟩ => ⟨same ▸ eq, eq'⟩, fun ⟨eq, eq'⟩ => ⟨token, eq, rfl, eq'⟩⟩
  · rw [if_neg same] at run
    refine .of_ok none ⟨token :: rest, last⟩ run .refl fun found place => ?_
    simp [same]

/-- Whether a token of a kind is read decides how the reading goes on. -/
theorem matches_takeIf_bind {next : Option Token → Reading β} {yes : Token → Rule β} {no : Rule β}
    (kind : Kind) (goes : kind ≠ .endOfFile)
    (taken : ∀ token, Matches (next (some token)) depth (yes token))
    (missing : Matches (next none) depth no) :
    Matches (takeIf (fun token => token.kind = kind) >>= next) depth fun value c₀ c₂ =>
      (∃ token c₁, Step kind token c₀ c₁ ∧ yes token value c₁ c₂) ∨
        c₀.Lacks (fun token => token.kind = kind) ∧ no value c₀ c₂ := by
  -- what follows depends on what was read, so its rule is stated for both cases at once
  have second : ∀ found, Matches (next found) depth fun value c₁ c₂ =>
      found.elim (no value c₁ c₂) fun token => yes token value c₁ c₂ := by
    rintro (_ | token)
    · exact missing
    · exact taken token
  refine ((matches_takeIf kind goes).bind second).congr fun value c₀ c₂ => ?_
  constructor
  · rintro ⟨_, c₁, ⟨token, rfl, step⟩ | ⟨rfl, lacks, rfl⟩, rest⟩
    · exact .inl ⟨token, c₁, step, rest⟩
    · exact .inr ⟨lacks, rest⟩
  · rintro (⟨token, c₁, step, rest⟩ | ⟨lacks, rest⟩)
    · exact ⟨some token, c₁, .inl ⟨token, rfl, step⟩, rest⟩
    · exact ⟨none, c₀, .inr ⟨rfl, lacks, rfl⟩, rest⟩

/-- A value announced by a token of a kind, if one comes next. -/
def Announced (kind : Kind) (rule : Rule α) : Rule (Option α) := fun found c₀ c₂ =>
  (∃ value token c₁, found = some value ∧ Step kind token c₀ c₁ ∧ rule value c₁ c₂) ∨
    found = none ∧ c₀.Lacks (fun token => token.kind = kind) ∧ c₂ = c₀

/-- What a token announces is read after it. -/
theorem matches_optional (kind : Kind) (goes : kind ≠ .endOfFile)
    (following : Matches reading depth rule) :
    Matches (optional kind reading) depth (Announced kind rule) := by
  refine (matches_check_bind (fun token => token.kind = kind)
    (fun _ => decide_eq_true_iff)
    ((matches_expect kind goes).bind fun _ => following.bind fun value => matches_pure (some value))
    (matches_pure none)).congr fun found c₀ c₂ => ?_
  constructor
  · rintro (⟨_, _, _, token, c₁, step, value, _, holds, rfl, rfl⟩ | ⟨lacks, rfl, rfl⟩)
    · exact .inl ⟨value, token, c₁, rfl, step, holds⟩
    · exact .inr ⟨rfl, lacks, rfl⟩
  · rintro (⟨value, token, c₁, rfl, step, holds⟩ | ⟨rfl, lacks, rfl⟩)
    · exact .inl ⟨token, step.next?_eq, step.kind_eq, token, c₁, step, value, c₂, holds, rfl, rfl⟩
    · exact .inr ⟨lacks, rfl, rfl⟩

/-! ## Nesting -/

/-- Returning to the depth from before changes nothing where the depth is kept. -/
theorem Matches.restoringDepth (matched : Matches reading depth rule) :
    Matches (restoringDepth reading) depth rule := by
  intro cursor complete
  have matched' := matched cursor complete
  refine matched'.of_iff fun value after => ?_
  rw [restoringDepth_eq_ok, matched'.ok_iff]
  constructor
  · rintro ⟨_, run, rfl⟩
    obtain ⟨place, holds, rfl⟩ := matched'.ok_iff.mp run
    exact ⟨place, holds, rfl⟩
  · rintro ⟨place, holds, rfl⟩
    exact ⟨_, matched'.ok_iff.mpr ⟨place, holds, rfl⟩, rfl⟩

/-- Where the depth is kept, it is enough to return to it after what follows. -/
theorem Matches.bind_restoringDepth (first : Matches reading depth rule) (following : α → Rule β)
    (second : ∀ value, Matches (Reading.restoringDepth (next value)) depth (following value)) :
    Matches (Reading.restoringDepth (reading >>= next)) depth fun value' c₀ c₂ =>
      ∃ value c₁, rule value c₀ c₁ ∧ following value value' c₁ c₂ := by
  intro cursor complete
  refine (first.bind second cursor complete).of_iff fun value' after => ?_
  simp only [restoringDepth_eq_ok, bind_eq_ok]
  constructor
  · rintro ⟨between', ⟨value, between, run, run'⟩, rfl⟩
    obtain ⟨place, -, rfl⟩ := (first cursor complete).ok_iff.mp run
    exact ⟨value, _, run, between', run', rfl⟩
  · rintro ⟨value, between, run, between', run', rfl⟩
    obtain ⟨place, -, rfl⟩ := (first cursor complete).ok_iff.mp run
    exact ⟨between', ⟨value, _, run, run'⟩, rfl⟩

/-- What is read one level deeper takes one of the levels that are left. -/
theorem matches_nested {levels : Nat} {rule : Nat → Rule α} (total : depth + levels = maxDepth)
    (deeper : ∀ less, levels = less + 1 →
      Matches (Reading.restoringDepth reading) (depth + 1) (rule less)) :
    Matches (nested reading) depth fun value c₀ c₁ =>
      ∃ less, levels = less + 1 ∧ rule less value c₀ c₁ := by
  intro cursor complete
  have entered := deepen_eq (cursor.reader depth)
  cases levels with
  -- at the limit no level is left
  | zero =>
    have full : ¬(cursor.reader depth).depth < maxDepth := by
      change ¬depth < maxDepth
      omega
    rw [if_neg full] at entered
    have run : nested reading (cursor.reader depth) =
        .error ⟨.tooDeep, (cursor.reader depth).here⟩ (cursor.reader depth) := by
      rw [nested, restoringDepth_eq, bind_of_error entered]
    exact .of_error run fun _ _ ⟨_, left, _⟩ => nomatch left
  | succ less =>
    have room : (cursor.reader depth).depth < maxDepth := by
      change depth < maxDepth
      omega
    rw [if_pos room] at entered
    have matched := deeper less rfl cursor complete
    constructor
    · intro value after
      rw [nested, restoringDepth_eq_ok, bind_of_ok entered]
      -- one level deeper the reading would return to its own depth; only the depth differs
      constructor
      · rintro ⟨between, run, rfl⟩
        obtain ⟨place, holds, eq⟩ := matched.ok_iff.mp (restoringDepth_eq_ok.mpr ⟨between, run, rfl⟩)
        exact ⟨place, ⟨less, rfl, holds⟩,
          congrArg (fun after : Reader => { after with depth := depth }) eq⟩
      · rintro ⟨place, ⟨_, ⟨⟩, holds⟩, rfl⟩
        obtain ⟨between, run, eq⟩ :=
          restoringDepth_eq_ok.mp (matched.ok_iff.mpr ⟨place, holds, rfl⟩)
        exact ⟨between, run, congrArg (fun after : Reader => { after with depth := depth }) eq⟩
    · rintro value place ⟨_, ⟨⟩, holds⟩
      exact matched.passes holds

/-! ## Repetition -/

/-- Values in a row, each spelled by a rule. -/
inductive Repeated (rule : Rule α) : Rule (List α)
  | nil {cursor : Cursor} : Repeated rule [] cursor cursor
  | cons {value values c₀ c₁ c₂} (first : rule value c₀ c₁)
      (further : Repeated rule values c₁ c₂) : Repeated rule (value :: values) c₀ c₂

/-- Values in a row are spelled by a rule that takes them one by one. -/
theorem repeated_iff (listed : Rule (List α)) (nil : ∀ {cursor}, listed [] cursor cursor)
    (cons : ∀ {value values c₀ c₁ c₂}, rule value c₀ c₁ → listed values c₁ c₂ →
      listed (value :: values) c₀ c₂) (eq_of_nil : ∀ {c₀ c₁}, listed [] c₀ c₁ → c₁ = c₀)
    (exists_of_cons : ∀ {value values c₀ c₂}, listed (value :: values) c₀ c₂ →
      ∃ c₁, rule value c₀ c₁ ∧ listed values c₁ c₂) {values : List α} {c₀ c₁ : Cursor} :
    Repeated rule values c₀ c₁ ↔ listed values c₀ c₁ := by
  constructor
  · intro repeated
    induction repeated with
    | nil => exact nil
    | cons first _ ih => exact cons first ih
  · intro holds
    induction values generalizing c₀ with
    | nil =>
      obtain rfl := eq_of_nil holds
      exact .nil
    | cons value values ih =>
      obtain ⟨c, first, further⟩ := exists_of_cons holds
      exact .cons first (ih further)

/-- A value behind a token of a kind. -/
def Behind (kind : Kind) (rule : Rule α) : Rule α := fun value c₀ c₂ =>
  ∃ token c₁, Step kind token c₀ c₁ ∧ rule value c₁ c₂

section Repetition

variable {ends : Kind → Bool} {item : Reading α}

/-- Items are read until a token that ends them, given that the budget counts the tokens. -/
theorem matchesAt_manyUntilWithin (items : Matches item depth rule)
    (starts : ∀ {value c₀ c₁}, rule value c₀ c₁ → Starts (ends · = false) c₀ c₁) (budget : Nat)
    (cursor : Cursor) (complete : Token.Complete cursor.tokens)
    (enough : cursor.tokens.length ≤ budget) :
    MatchesAt (manyUntilWithin ends item budget) depth cursor fun values place =>
      Repeated rule values cursor place ∧ place.NextEnds ends := by
  induction budget generalizing cursor with
  | zero =>
    obtain ⟨token, rest, last, rfl, -⟩ := exists_next complete
    exact absurd enough (Nat.not_succ_le_zero _)
  | succ budget ih =>
    obtain ⟨token, rest, last, rfl, -⟩ := exists_next complete
    unfold manyUntilWithin
    refine .bind_look (ends token.kind) (check_reader _) ?_
    cases ending : ends token.kind with
    | true =>
      refine .of_ok [] ⟨token :: rest, last⟩ rfl .refl fun values place => ?_
      constructor
      · rintro ⟨_ | ⟨first, _⟩, _⟩
        · exact ⟨rfl, rfl⟩
        · exact absurd ⟨token, rfl, ending⟩ (starts first).not_nextEnds
      · rintro ⟨rfl, rfl⟩
        exact ⟨.nil, token, rfl, ending⟩
    | false =>
      -- an item takes up a token, so the budget still counts the tokens behind it
      have further : ∀ value place, rule value ⟨token :: rest, last⟩ place →
          MatchesAt (manyUntilWithin ends item budget) depth place fun values place' =>
            Repeated rule values place place' ∧ place'.NextEnds ends := by
        intro value place holds
        have shorter := (starts holds).length_lt
        exact ih place ((starts holds).passes.complete complete) (by omega)
      refine MatchesAt.congr ((items _ complete).bind fun value place holds =>
        (further value place holds).bind fun values place' holds' =>
          matches_pure (value :: values) place' ?_) fun values place => ?_
      · exact ((further value place holds).passes holds').complete
          ((starts holds).passes.complete complete)
      constructor
      · rintro ⟨value, c₁, holds, values, c₂, ⟨repeated, ends⟩, rfl, rfl⟩
        exact ⟨.cons holds repeated, ends⟩
      · rintro ⟨_ | ⟨first, further⟩, ends⟩
        · obtain ⟨_, ⟨⟩, ending'⟩ := ends
          exact absurd ending' (Bool.eq_false_iff.mp ending)
        · exact ⟨_, _, first, _, _, ⟨further, ends⟩, rfl, rfl⟩

/-- Items are read until a token that ends them. -/
theorem matches_manyUntil (items : Matches item depth rule)
    (starts : ∀ {value c₀ c₁}, rule value c₀ c₁ → Starts (ends · = false) c₀ c₁) :
    Matches (manyUntil ends item) depth fun values c₀ c₁ =>
      Repeated rule values c₀ c₁ ∧ c₁.NextEnds ends := fun cursor complete =>
  .bind_look (cursor.reader depth) rfl
    (matchesAt_manyUntilWithin items starts _ cursor complete (Nat.le_refl _))

variable (separator close : Kind)

/-- Items with tokens between them are read together with the token that ends them. -/
theorem matches_closed (items : Matches item depth rule)
    (passes : ∀ {value c₀ c₁}, rule value c₀ c₁ → c₀.Passes c₁) (separates : separator ≠ .endOfFile)
    (closes : close ≠ .endOfFile) (other : separator ≠ close) :
    Matches (closed separator close item) depth fun values c₀ c₃ =>
      ∃ first further c₁ c₂ closing, values = first :: further ∧ rule first c₀ c₁ ∧
        Repeated (Behind separator rule) further c₁ c₂ ∧ Step close closing c₂ c₃ := by
  have behind : Matches (do let _ ← expect separator; item) depth (Behind separator rule) :=
    (matches_expect separator separates).bind fun _ => items
  -- further items start with the separator, which is not what ends them
  have starts : ∀ {value c₀ c₁}, Behind separator rule value c₀ c₁ →
      Starts (fun kind => decide (kind = close) = false) c₀ c₁ := by
    rintro value c₀ c₂ ⟨token, c₁, step, holds⟩
    exact step.starts (decide_eq_false other) separates (passes holds)
  refine Matches.congr (.bind (.bind items fun first => .bind (matches_manyUntil behind starts)
    fun further => matches_pure (first :: further)) fun values => .bind (matches_expect close closes)
      fun _ => matches_pure values) fun values c₀ c₃ => ?_
  constructor
  · rintro ⟨_, c₂, ⟨first, c₁, holds, further, _, ⟨repeated, -⟩, rfl, rfl⟩, closing, _, step, rfl, rfl⟩
    exact ⟨first, further, c₁, c₂, closing, rfl, holds, repeated, step⟩
  · rintro ⟨first, further, c₁, c₂, closing, rfl, holds, repeated, step⟩
    exact ⟨_, c₂, ⟨first, c₁, holds, further, c₂, ⟨repeated, step.nextEnds (decide_eq_true rfl)⟩,
      rfl, rfl⟩, closing, c₃, step, rfl, rfl⟩

/-- The same where there may be no items at all, if no item starts with the token that ends them. -/
theorem matches_listed (items : Matches item depth rule)
    (starts : ∀ {value c₀ c₁}, rule value c₀ c₁ → Starts (· ≠ close) c₀ c₁)
    (separates : separator ≠ .endOfFile) (closes : close ≠ .endOfFile) (other : separator ≠ close) :
    Matches (listed separator close item) depth fun values c₀ c₃ =>
      (∃ closing, values = [] ∧ Step close closing c₀ c₃) ∨
      ∃ first further c₁ c₂ closing, values = first :: further ∧ rule first c₀ c₁ ∧
        Repeated (Behind separator rule) further c₁ c₂ ∧ Step close closing c₂ c₃ := by
  refine Matches.congr (matches_check_bind (fun token => token.kind = close)
    (fun _ => decide_eq_true_iff)
    (.bind (matches_pure []) fun values => .bind (matches_expect close closes)
      fun _ => matches_pure values)
    (matches_closed separator close items (fun holds => (starts holds).passes) separates
      closes other))
      fun values c₀ c₃ => ?_
  constructor
  · rintro (⟨_, _, _, _, _, ⟨rfl, rfl⟩, closing, _, step, rfl, rfl⟩ | ⟨_, listed⟩)
    · exact .inl ⟨closing, rfl, step⟩
    · exact .inr listed
  · rintro (⟨closing, rfl, step⟩ | ⟨first, further, c₁, c₂, closing, rfl, holds, repeated, step⟩)
    · exact .inl ⟨closing, step.next?_eq, step.kind_eq, [], c₀, ⟨rfl, rfl⟩, closing, c₃, step, rfl, rfl⟩
    · obtain ⟨kind, token, c, start, differs, -⟩ := starts holds
      exact .inr ⟨start.lacks_kind differs,
        first, further, c₁, c₂, closing, rfl, holds, repeated, step⟩

end Repetition

end Reading

end ClassLang
