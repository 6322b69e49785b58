import ClassLang.Proofs.Grammar.Lookahead

/-! # Readings in step

Two readers with tokens of the same kinds and texts can be read in step: both readings take up as many
tokens and yield values that look the same, or both fail for the same reason at positions that
correspond (`Reading.Alike`). Which positions correspond is left open. -/

namespace ClassLang

section Alike

variable (places : Position → Position → Prop)

/-- Tokens behind two positions are alike if they have the same kind and text, their positions
correspond, and both or neither stand on the line of the position before. -/
structure Token.Alike (last last' : Position) (token token' : Token) : Prop where
  kind : token.kind = token'.kind
  text : token.text = token'.text
  position : places token.position token'.position
  /-- Both or neither stand on the line of the position before. -/
  line : token.position.line = last.line ↔ token'.position.line = last'.line

/-- Lists of tokens behind two positions are aligned if their tokens are alike in pairs. -/
inductive Token.Aligned : Position → Position → List Token → List Token → Prop
  | nil {last last'} : Aligned last last' [] []
  /-- The next tokens are alike, and so are those behind them. -/
  | cons {last last' token token' rest rest'} (like : token.Alike places last last' token')
      (more : Aligned token.position token'.position rest rest') :
      Aligned last last' (token :: rest) (token' :: rest')

/-- Readers are alike if their tokens are aligned. -/
structure Reader.Alike (reader reader' : Reader) : Prop where
  tokens : Token.Aligned places reader.last reader'.last reader.tokens reader'.tokens
  last : places reader.last reader'.last
  /-- As many constructs enclose the one being read. -/
  depth : reader.depth = reader'.depth

end Alike

section Alike

variable {places : Position → Position → Prop} {reader reader' : Reader}

theorem Token.Aligned.length_eq {last last' : Position} {tokens tokens' : List Token}
    (aligned : Token.Aligned places last last' tokens tokens') : tokens.length = tokens'.length := by
  induction aligned with
  | nil => rfl
  | cons like more ih => rw [List.length_cons, List.length_cons, ih]

/-- The next tokens of readers that are alike are alike. -/
theorem Reader.Alike.next (alike : reader.Alike places reader') :
    Option.Rel (Token.Alike places reader.last reader'.last) reader.tokens.head?
      reader'.tokens.head? := by
  obtain ⟨tokens, last, depth⟩ := reader
  obtain ⟨tokens', last', depth'⟩ := reader'
  cases alike.tokens with
  | nil => exact .none
  | cons like more => exact .some like

/-- Readers stay alike behind the next token. -/
theorem Reader.Alike.past (alike : reader.Alike places reader') :
    (Reading.past reader).Alike places (Reading.past reader') := by
  obtain ⟨tokens, last, depth⟩ := reader
  obtain ⟨tokens', last', depth'⟩ := reader'
  cases alike.tokens with
  | nil => exact alike
  | cons like more => exact ⟨more, like.position, alike.depth⟩

end Alike

namespace Reading

/-! ## Runs in step -/

section Outcomes

variable {α β γ δ : Type} (places : Position → Position → Prop) (view : α → γ)

/-- Outcomes are alike if both are values that look the same, or both are faults for the same reason
at positions that correspond, with as many tokens left. -/
inductive EndsAlike : EStateM.Result Fault Reader α → EStateM.Result Fault Reader α → Prop
  | ok {value value' after after'} (same : view value = view value')
      (alike : after.Alike places after') : EndsAlike (.ok value after) (.ok value' after')
  | error {fault fault' after after'} (cause : fault.cause = fault'.cause)
      (position : places fault.position fault'.position)
      (length : after.tokens.length = after'.tokens.length) :
      EndsAlike (.error fault after) (.error fault' after')

/-- Readings are alike if their outcomes are for any readers that are. -/
def Alike (reading reading' : Reading α) : Prop :=
  ∀ reader reader' : Reader, reader.Alike places reader' →
    EndsAlike places view (reading reader) (reading' reader')

variable {places view} {view' : β → δ} {reading reading' : Reading α} {next next' : α → Reading β}

/-- Readings in a row, from two readers on. -/
theorem endsAlike_bind {reader reader' : Reader}
    (first : EndsAlike places view (reading reader) (reading' reader'))
    (second : ∀ {value value' between between'}, reading reader = .ok value between →
      reading' reader' = .ok value' between' → view value = view value' →
      between.Alike places between' →
      EndsAlike places view' (next value between) (next' value' between')) :
    EndsAlike places view' ((reading >>= next) reader) ((reading' >>= next') reader') := by
  cases run : reading reader with
  | ok value between =>
    cases run' : reading' reader' with
    | ok value' between' =>
      rw [run, run'] at first
      cases first with
      | ok same alike =>
        rw [bind_of_ok run, bind_of_ok run']
        exact second run run' same alike
    | error fault' between' =>
      rw [run, run'] at first
      cases first
  | error fault between =>
    cases run' : reading' reader' with
    | ok value' between' =>
      rw [run, run'] at first
      cases first
    | error fault' between' =>
      rw [run, run'] at first
      cases first with
      | error cause position length =>
        rw [bind_of_error run, bind_of_error run']
        exact .error cause position length

theorem Alike.bind (first : Alike places view reading reading')
    (second : ∀ {value value'}, view value = view value' →
      Alike places view' (next value) (next' value')) :
    Alike places view' (reading >>= next) (reading' >>= next') :=
  fun _ _ alike => endsAlike_bind (first _ _ alike) fun _ _ same between => second same _ _ between

theorem alike_pure {value value' : α} (same : view value = view value') :
    Alike places view (pure value) (pure value') :=
  fun _ _ alike => .ok same alike

theorem Alike.bind_pure {form form' : α → β} (first : Alike places view reading reading')
    (second : ∀ {value value'}, view value = view value' →
      view' (form value) = view' (form' value')) :
    Alike places view' (do return form (← reading)) (do return form' (← reading')) :=
  first.bind fun same => alike_pure (second same)

/-- What is read is mapped to another form. -/
theorem Alike.map {form form' : α → β} (first : Alike places view reading reading')
    (second : ∀ {value value'}, view value = view value' →
      view' (form value) = view' (form' value')) :
    Alike places view' (form <$> reading) (form' <$> reading') := by
  rw [map_eq_pure_bind, map_eq_pure_bind]
  exact first.bind_pure second

/-- Readings on either side of a condition that both or neither satisfy. -/
theorem Alike.ite {test test' : Reading Bool} {other other' : Reading α}
    (tests : Alike places id test test') (positive : Alike places view reading reading')
    (negative : Alike places view other other') :
    Alike places view (do if ← test then reading else other)
      (do if ← test' then reading' else other') := by
  refine tests.bind fun {holds holds'} same => ?_
  obtain rfl : holds = holds' := same
  cases holds with
  | false => exact negative
  | true => exact positive

/-! ## Single tokens -/

variable (places view)

/-- Two looks at the next token lead to the same step. -/
inductive LooksAlike : Except Fault (α × Bool) → Except Fault (α × Bool) → Prop
  /-- Both yield a value, and take up the token or leave it. -/
  | ok {value value' taken} (same : view value = view value') :
      LooksAlike (.ok (value, taken)) (.ok (value', taken))
  | error {fault fault'} (cause : fault.cause = fault'.cause)
      (position : places fault.position fault'.position) :
      LooksAlike (.error fault) (.error fault')

end Outcomes

variable {α β γ δ : Type} {places : Position → Position → Prop} {view : α → γ}
  {reader reader' : Reader}

section Steps

variable {look look' : Option Token → Position → Except Fault (α × Bool)}
  {step step' : Token → Except Fault (α × Bool)}

/-- A step is taken by both readers. -/
theorem endsAlike_stepping (alike : reader.Alike places reader')
    (looks : ∀ {next next'}, Option.Rel (Token.Alike places reader.last reader'.last) next next' →
      LooksAlike places view (look next reader.last) (look' next' reader'.last)) :
    EndsAlike places view (stepping look reader) (stepping look' reader') := by
  have looked := looks alike.next
  unfold stepping
  generalize look reader.tokens.head? reader.last = found at looked
  generalize look' reader'.tokens.head? reader'.last = found' at looked
  cases looked with
  | @ok value value' taken same =>
    cases taken
    · exact .ok same alike
    · exact .ok same alike.past
  | error cause position => exact .error cause position alike.tokens.length_eq

/-- A step on a well-formed token is taken by both readers. -/
theorem endsAlike_wellFormed (alike : reader.Alike places reader')
    (looks : ∀ {token token'}, Token.Alike places reader.last reader'.last token token' →
      LooksAlike places view (step token) (step' token')) :
    EndsAlike places view (stepping (fun next last => (wellFormed? next last).bind step) reader)
      (stepping (fun next last => (wellFormed? next last).bind step') reader') := by
  refine endsAlike_stepping alike fun next => ?_
  cases next with
  | none => exact .error rfl alike.last
  | @some token token' like =>
    by_cases bad : token.kind = .malformed
    · rw [wellFormed?_malformed bad, wellFormed?_malformed (like.kind ▸ bad)]
      exact .error (congrArg Cause.lexical like.text) like.position
    · rw [wellFormed?_some bad, wellFormed?_some (like.kind ▸ bad)]
      exact looks like

end Steps

/-- Tokens that are alike are unexpected for the same reason. -/
theorem looksAlike_unexpectedNext (expected : String) {last last' : Position}
    {next next' : Option Token} (alike : Option.Rel (Token.Alike places last last') next next')
    (corresponds : places last last') :
    LooksAlike places view (.error (unexpectedNext expected next last))
      (.error (unexpectedNext expected next' last')) := by
  cases alike with
  | none => exact .error rfl corresponds
  | @some token token' like =>
    obtain ⟨kind, text, position⟩ := token
    obtain ⟨kind', text', position'⟩ := token'
    obtain rfl : kind = kind' := like.kind
    obtain rfl : text = text' := like.text
    cases kind <;> exact .error rfl like.position

theorem alike_here : Alike places (fun _ => ()) here here := by
  rw [here_eq_stepping]
  exact fun _ _ alike => endsAlike_stepping alike fun _ => .ok rfl

/-- A condition is looked up that both or neither of the next tokens satisfy. -/
theorem endsAlike_check {condition condition' : Token → Bool} (alike : reader.Alike places reader')
    (same : ∀ {token token'}, Token.Alike places reader.last reader'.last token token' →
      condition token = condition' token') :
    EndsAlike places id ((check condition : Reading _) reader)
      ((check condition' : Reading _) reader') := by
  rw [check_eq_stepping, check_eq_stepping]
  refine endsAlike_stepping alike fun next => .ok ?_
  cases next with
  | none => rfl
  | some like => exact same like

theorem alike_check (condition : Kind → Bool) :
    Alike places id (check fun token => condition token.kind)
      (check fun token => condition token.kind) :=
  fun _ _ alike => endsAlike_check alike fun like => congrArg condition like.kind

theorem alike_peek : Alike places Token.kind peek peek := by
  rw [peek_eq_stepping]
  exact fun _ _ alike => endsAlike_wellFormed alike fun like => .ok like.kind

theorem alike_failExpecting (expected : String) :
    Alike places view (failExpecting expected) (failExpecting expected) := by
  rw [failExpecting_eq_stepping]
  exact fun _ _ alike => endsAlike_stepping alike fun next =>
    looksAlike_unexpectedNext expected next alike.last

/-- Beyond the deepest level everything nests too deeply. -/
theorem alike_tooDeep : Alike places view (do throw ⟨.tooDeep, ← here⟩)
    (do throw ⟨.tooDeep, ← here⟩) := by
  rw [tooDeep_eq_stepping]
  refine fun _ _ alike => endsAlike_stepping alike fun next => ?_
  cases next with
  | none => exact .error rfl alike.last
  | some like => exact .error rfl like.position

/-- A token of a kind is taken up where there is one, whatever comes before it. -/
theorem endsAlike_expect_cons (kind : Kind) {before before' last last' : Position}
    {token token' : Token} {rest rest' : List Token} {depth : Nat}
    (like : token.Alike places before before' token')
    (more : Token.Aligned places token.position token'.position rest rest') :
    EndsAlike places Token.text ((expect kind : Reading _) ⟨token :: rest, last, depth⟩)
      ((expect kind : Reading _) ⟨token' :: rest', last', depth⟩) := by
  have lengths : (token :: rest).length = (token' :: rest').length := by
    rw [List.length_cons, List.length_cons, more.length_eq]
  rw [expect_eq_stepping]
  unfold stepping
  dsimp only [List.head?_cons]
  by_cases bad : token.kind = .malformed
  · rw [wellFormed?_malformed bad, wellFormed?_malformed (like.kind ▸ bad)]
    exact .error (congrArg Cause.lexical like.text) like.position lengths
  · rw [wellFormed?_some bad, wellFormed?_some (like.kind ▸ bad)]
    dsimp only [Except.bind]
    by_cases same : token.kind = kind
    · rw [if_pos same, if_pos (like.kind ▸ same)]
      exact .ok like.text ⟨more, like.position, rfl⟩
    · rw [if_neg same, if_neg (like.kind ▸ same)]
      have next : token.Alike places token.position token'.position token' :=
        ⟨like.kind, like.text, like.position, iff_of_true rfl rfl⟩
      have looks : LooksAlike places Token.text _ _ :=
        looksAlike_unexpectedNext kind.describe (.some next) like.position
      cases looks with
      | error cause position => exact .error cause position lengths

/-- A token of a kind is taken up. -/
theorem alike_expect (kind : Kind) : Alike places Token.text (expect kind) (expect kind) := by
  rintro ⟨tokens, last, depth⟩ ⟨tokens', last', depth'⟩ alike
  obtain rfl : depth = depth' := alike.depth
  cases alike.tokens with
  | nil => exact .error rfl alike.last rfl
  | cons like more => exact endsAlike_expect_cons kind like more

/-- A token of a kind is taken up if it comes next. -/
theorem alike_takeIf (kind : Kind) :
    Alike places Option.isSome (takeIf fun token => token.kind = kind)
      (takeIf fun token => token.kind = kind) := by
  rw [takeIf_eq_stepping]
  refine fun _ _ alike => endsAlike_stepping alike fun next => ?_
  cases next with
  | none => exact .ok rfl
  | @some token token' like =>
    by_cases same : token.kind = kind
    · have same' : token'.kind = kind := like.kind ▸ same
      simp only [Option.any_some, Option.filter_some, same, same', decide_true, if_true]
      exact .ok rfl
    · have same' : ¬token'.kind = kind := like.kind ▸ same
      simp only [Option.any_some, Option.filter_some, same, same', decide_false]
      exact .ok rfl

theorem alike_skipIf (kind : Kind) : Alike places id (skipIf kind) (skipIf kind) :=
  (alike_takeIf kind).bind_pure fun _ => rfl

/-! ## Nesting and repetition -/

section Nesting

variable {reading reading' : Reading α}

/-- Lists that may be missing look the same if they do when they count as empty. -/
theorem map_getD_nil {values values' : Option (List α)}
    (same : values.map (List.map view) = values'.map (List.map view)) :
    (values.getD []).map view = (values'.getD []).map view := by
  cases values <;> cases values' <;> simp_all

theorem Alike.optional (kind : Kind) (following : Alike places view reading reading') :
    Alike places (Option.map view) (optional kind reading) (optional kind reading') := by
  refine (alike_check (· = kind)).ite ?_ (alike_pure rfl)
  exact (alike_expect kind).bind fun _ => following.bind_pure fun same => congrArg some same

/-- One more level is entered. -/
theorem alike_deepen : Alike places id deepen deepen := by
  intro reader reader' alike
  rw [deepen_eq, deepen_eq, ← alike.depth]
  split
  · exact .ok rfl ⟨alike.tokens, alike.last, rfl⟩
  · exact alike_tooDeep _ _ alike

/-- The depth from before is returned to. -/
theorem Alike.restoringDepth (inside : Alike places view reading reading') :
    Alike places view (restoringDepth reading) (restoringDepth reading') := by
  intro reader reader' alike
  have ends := inside _ _ alike
  rw [restoringDepth_eq, restoringDepth_eq]
  generalize reading reader = outcome at ends
  generalize reading' reader' = outcome' at ends
  cases ends with
  | ok same after => exact .ok same ⟨after.tokens, after.last, alike.depth⟩
  | error cause position length => exact .error cause position length

theorem Alike.nested (inside : Alike places view reading reading') :
    Alike places view (nested reading) (nested reading') :=
  (alike_deepen.bind fun _ => inside).restoringDepth

variable (items : Alike places view reading reading')

include items

/-- Items are read one after another. -/
theorem Alike.manyUntilWithin (ends : Kind → Bool) (budget : Nat) :
    Alike places (List.map view) (manyUntilWithin ends reading budget)
      (manyUntilWithin ends reading' budget) := by
  induction budget with
  | zero =>
    unfold Reading.manyUntilWithin
    refine (alike_check ends).ite (alike_pure rfl) (items.bind_pure fun same => ?_)
    rw [List.map_singleton, List.map_singleton, same]
  | succ budget ih =>
    unfold Reading.manyUntilWithin
    refine (alike_check ends).ite (alike_pure rfl) ?_
    refine items.bind fun same => ih.bind_pure fun same' => ?_
    rw [List.map_cons, List.map_cons, same, same']

/-- Items are read up to a token that ends them. -/
theorem Alike.manyUntil (ends : Kind → Bool) :
    Alike places (List.map view) (manyUntil ends reading) (manyUntil ends reading') := by
  intro reader reader' alike
  -- as many tokens are left, so both budgets are the same
  have budgets : reader.tokens.length = reader'.tokens.length := alike.tokens.length_eq
  change EndsAlike places (List.map view)
    (Reading.manyUntilWithin ends reading reader.tokens.length reader)
    (Reading.manyUntilWithin ends reading' reader'.tokens.length reader')
  rw [← budgets]
  exact items.manyUntilWithin ends _ _ _ alike

/-- Items are read with tokens between them. -/
theorem Alike.separated (separator close : Kind) :
    Alike places (List.map view) (separated separator close reading)
      (separated separator close reading') := by
  have more := ((alike_expect separator).bind fun _ => items).manyUntil (· = close)
  refine items.bind fun same => more.bind_pure fun same' => ?_
  rw [List.map_cons, List.map_cons, same, same']

/-- Items with tokens between them are read together with the token that ends them. -/
theorem Alike.closed (separator close : Kind) :
    Alike places (List.map view) (closed separator close reading) (closed separator close reading') :=
  (items.separated separator close).bind fun same => (alike_expect close).bind_pure fun _ => same

/-- The same where there may be no items at all. -/
theorem Alike.listed (separator close : Kind) :
    Alike places (List.map view) (listed separator close reading) (listed separator close reading') := by
  refine (alike_check (· = close)).ite ?_ (items.closed separator close)
  exact (alike_expect close).bind_pure fun _ => rfl

end Nesting

end Reading

end ClassLang
