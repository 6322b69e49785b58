import ClassLang.Proofs.Grammar.Matching

/-! # How far readings look

Whether or not it succeeds, a reading takes up tokens from the front, none of which is malformed or
ends the text, and looks at most at the token behind them. So its outcome is the same whatever stands
further behind (`Reading.Takes.looks`), and a fault is about the last token taken up or the one behind
it (`Fault.Blames`). -/

namespace ClassLang

open List

variable {kind : Kind} {behind : Option Token}

/-- Whether tokens of a kind are part of a program: others are never taken up before its end. -/
def Kind.isUsed : Kind → Bool
  | .symbol .arrow | .string | .endOfFile | .malformed => false
  | _ => true

theorem Kind.ne_malformed_of_isUsed (used : kind.isUsed = true) : kind ≠ .malformed := by
  rintro rfl
  cases used

/-! ## What a fault is about -/

/-- What a fault says of the token before the place where reading stopped and of the next one. -/
def Fault.Blames (fault : Fault) (behind next : Option Token) : Prop :=
  match fault.cause with
  | .lexical complaint =>
    ∃ token, next = some token ∧ token.kind = .malformed ∧ token.text = complaint ∧
      token.position = fault.position
  | .incompleteBinary text =>
    ∃ operator token, behind = some operator ∧ next = some token ∧
      (BinaryOp.ofKind? operator.kind).isSome = true ∧ operator.text = text ∧
      operator.position = fault.position ∧
      ¬(Grammar.startsOperand token.kind = true ∧ token.position.line = operator.position.line)
  | _ => ∀ token, next = some token → fault.position = token.position

/-- A fault that says nothing of the token before may be about any. -/
theorem Fault.Blames.or {fault : Fault} {next : Option Token} (blames : fault.Blames behind next)
    (other : Option Token) : fault.Blames (behind.or other) next := by
  unfold Blames at *
  split
  · next cause => simpa only [cause] using blames
  · next cause =>
      simp only [cause] at blames
      obtain ⟨operator, token, rfl, found⟩ := blames
      exact ⟨operator, token, rfl, found⟩
  · next noComplaint complete =>
      split at blames
      · next cause => exact absurd cause (noComplaint _)
      · next cause => exact absurd cause (complete _)
      · exact blames

namespace Reading

variable {α β : Type} {reading : Reading α} {reader : Reader} {next : α → Reading β} {form : α → β}
  {token : Token} {taken : List Token}

/-! ## Runs of readings -/

/-- The reader that a reading leaves behind. -/
def after (reading : Reading α) (reader : Reader) : Reader :=
  match reading reader with
  | .ok _ after => after
  | .error _ after => after

theorem after_of_ok {value : α} {after : Reader} (run : reading reader = .ok value after) :
    reading.after reader = after := by
  rw [Reading.after, run]

theorem after_of_error {fault : Fault} {after : Reader} (run : reading reader = .error fault after) :
    reading.after reader = after := by
  rw [Reading.after, run]

/-- An outcome with other tokens left. -/
def leaving (left : List Token) : EStateM.Result Fault Reader α → EStateM.Result Fault Reader α
  | .ok value after => .ok value { after with tokens := left }
  | .error fault after => .error fault { after with tokens := left }

/-- How a reading takes up the tokens before a reader, one of which may be behind it already. -/
structure Takes (reading : Reading α) (behind : Option Token) (reader : Reader)
    (taken : List Token) : Prop where
  /-- The tokens are taken up from the front. -/
  tokens_eq : reader.tokens = taken ++ (reading.after reader).tokens
  /-- They are part of a program. -/
  used : ∀ token ∈ taken, token.kind.isUsed = true
  /-- A fault is about the last token taken up or about the next one. -/
  blames : ∀ {fault : Fault} {after : Reader}, reading reader = .error fault after →
    fault.Blames (taken.getLast?.or behind) after.tokens.head?
  /-- What stands behind the next token does not matter. -/
  looks : ∀ left : List Token, left.head? = (reading.after reader).tokens.head? →
    reading { reader with tokens := taken ++ left } = leaving left (reading reader)

/-- Whether a reading takes up tokens of a program only, and looks no further than behind them. -/
def TakesUp (reading : Reading α) : Prop := ∀ behind reader, ∃ taken, reading.Takes behind reader taken

/-- What is read does not depend on what stands behind the next token. -/
theorem TakesUp.ok_of_ok (takes : reading.TakesUp) {left left' : List Token} {last last' : Position}
    {depth depth' : Nat} {value : α} (ahead : left'.head? = left.head?)
    (run : reading ⟨taken ++ left, last, depth⟩ = .ok value ⟨left, last', depth'⟩) :
    reading ⟨taken ++ left', last, depth⟩ = .ok value ⟨left', last', depth'⟩ := by
  obtain ⟨_, here⟩ := takes none ⟨taken ++ left, last, depth⟩
  have tokens_eq := here.tokens_eq
  rw [after_of_ok run] at tokens_eq
  obtain rfl := append_cancel_right tokens_eq
  have looked := here.looks left' (by rw [after_of_ok run, ahead])
  rw [run] at looked
  exact looked

/-- A reading that does the same as another one from a reader on, whatever the tokens are. -/
theorem Takes.congr {reading' : Reading α} (takes : reading.Takes behind reader taken)
    (same : ∀ tokens, reading' { reader with tokens := tokens } =
      reading { reader with tokens := tokens }) : reading'.Takes behind reader taken := by
  have here : reading' reader = reading reader := same reader.tokens
  have left_eq : reading'.after reader = reading.after reader := by
    rw [after, here, after]
  refine ⟨left_eq ▸ takes.tokens_eq, takes.used, fun failed => ?_, fun left ahead => ?_⟩
  · exact takes.blames (here.symm.trans failed)
  · rw [left_eq] at ahead
    rw [same, takes.looks left ahead, here]

/-- Readings in a row, from one reader on. -/
theorem exists_takes_bind (takes : reading.Takes behind reader taken)
    (second : ∀ value between, reading reader = .ok value between →
      ∃ taken', (next value).Takes (taken.getLast?.or behind) between taken') :
    ∃ taken, (reading >>= next).Takes behind reader taken := by
  cases run : reading reader with
  | error fault between =>
    have whole : (reading >>= next) reader = .error fault between := bind_of_error run
    refine ⟨taken, ?_, takes.used, ?_, ?_⟩
    · rw [takes.tokens_eq, after_of_error run, after_of_error whole]
    · intro fault' after' failed
      cases whole.symm.trans failed
      exact takes.blames run
    · intro left same
      rw [after_of_error whole, ← after_of_error run] at same
      have looked := takes.looks left same
      rw [run] at looked
      rw [bind_of_error looked, whole]
      rfl
  | ok value between =>
    obtain ⟨taken', takes'⟩ := second value between run
    have whole : (reading >>= next) reader = next value between := bind_of_ok run
    have left_eq : (reading >>= next).after reader = (next value).after between := by
      rw [after, whole, after]
    refine ⟨taken ++ taken', ?_, ?_, ?_, ?_⟩
    · rw [takes.tokens_eq, after_of_ok run, takes'.tokens_eq, left_eq, append_assoc]
    · exact forall_mem_append.mpr ⟨takes.used, takes'.used⟩
    · intro fault after failed
      rw [getLast?_append, Option.or_assoc]
      exact takes'.blames (whole.symm.trans failed)
    · intro left same
      rw [left_eq] at same
      -- the first reading sees the first token that the second one takes up or looks at
      have further : (taken' ++ left).head? = (reading.after reader).tokens.head? := by
        rw [after_of_ok run, takes'.tokens_eq, head?_append, head?_append, same]
      have looked := takes.looks (taken' ++ left) further
      rw [run] at looked
      rw [append_assoc, bind_of_ok looked, takes'.looks left same, whole]

theorem TakesUp.bind (first : reading.TakesUp) (second : ∀ value, (next value).TakesUp) :
    TakesUp (reading >>= next) := by
  intro behind reader
  obtain ⟨taken, takes⟩ := first behind reader
  exact exists_takes_bind takes fun value between _ => second value _ between

theorem takesUp_pure (value : α) : TakesUp (pure value) :=
  fun _ _ => ⟨[], rfl, forall_mem_nil _, nofun, fun _ _ => rfl⟩

theorem TakesUp.bind_pure (takes : reading.TakesUp) : TakesUp (do return form (← reading)) :=
  takes.bind fun _ => takesUp_pure _

/-- A reading that depends on the reader, but not on its tokens. -/
theorem TakesUp.of_get {next : Reader → Reading β} (takes : ∀ reader, (next reader).TakesUp)
    (same : ∀ reader tokens, next { reader with tokens := tokens } = next reader) :
    TakesUp (get >>= next) := by
  intro behind reader
  obtain ⟨taken, here⟩ := takes reader behind reader
  refine ⟨taken, here.tokens_eq, here.used, here.blames, fun left ahead => ?_⟩
  exact (congrFun (same reader (taken ++ left)) _).trans (here.looks left ahead)

/-! ## Single tokens -/

/-- The reader behind the next token. -/
def past (reader : Reader) : Reader :=
  match reader.tokens with
  | token :: rest => { reader with tokens := rest, last := token.position }
  | [] => reader

/-- A step looks at the next token, and takes it up or leaves it. -/
def stepping (look : Option Token → Position → Except Fault (α × Bool)) : Reading α := fun reader =>
  match look reader.tokens.head? reader.last with
  | .ok (value, true) => .ok value (past reader)
  | .ok (value, false) => .ok value reader
  | .error fault => .error fault reader

variable (expected : String)

/-- What is wrong with the next token where something else is needed. -/
def unexpectedNext (next : Option Token) (last : Position) : Fault :=
  (Reader.mk next.toList last 0).unexpected expected

theorem here_eq_stepping :
    here = stepping fun next last => .ok ((next.map Token.position).getD last, false) := by
  funext ⟨tokens, last, depth⟩
  cases tokens <;> rfl

variable (condition : Token → Bool)

theorem check_eq_stepping :
    check condition = stepping fun next _ => .ok (next.any condition, false) := by
  funext ⟨tokens, last, depth⟩
  cases tokens <;> rfl

theorem failExpecting_eq_stepping : (failExpecting expected : Reading α) =
      stepping fun next last => .error (unexpectedNext expected next last) := by
  funext ⟨tokens, last, depth⟩
  cases tokens <;> rfl

theorem tooDeep_eq_stepping : (do throw ⟨.tooDeep, ← here⟩ : Reading α) =
    stepping fun next last => .error ⟨.tooDeep, (next.map Token.position).getD last⟩ := by
  funext ⟨tokens, last, depth⟩
  cases tokens <;> rfl

/-- The next token, if there is one and it is well-formed. -/
def wellFormed? : Option Token → Position → Except Fault Token
  | some token, _ =>
    if token.kind = .malformed then .error ⟨.lexical token.text, token.position⟩ else .ok token
  | none, last => .error ⟨.unexpectedEnd, last⟩

theorem wellFormed?_malformed (bad : token.kind = .malformed) (last : Position) :
    wellFormed? (some token) last = .error ⟨.lexical token.text, token.position⟩ := if_pos bad

theorem wellFormed?_some (well : token.kind ≠ .malformed) (last : Position) :
    wellFormed? (some token) last = .ok token := if_neg well

/-- What is done with the next token, if it is well-formed, is done in a step. -/
theorem peek_bind_eq_stepping {next : Token → Reading α} {step : Token → Except Fault (α × Bool)}
    (same : ∀ token rest last depth, token.kind ≠ .malformed →
      next token ⟨token :: rest, last, depth⟩ =
        stepping (fun _ _ => step token) ⟨token :: rest, last, depth⟩) :
    peek >>= next = stepping fun next last => (wellFormed? next last).bind step := by
  funext ⟨tokens, last, depth⟩
  cases tokens with
  | nil => rfl
  | cons token more =>
    unfold stepping
    dsimp only [head?_cons]
    by_cases bad : token.kind = .malformed
    · rw [bind_of_error (peek_malformed bad more last depth), wellFormed?_malformed bad]
      rfl
    · rw [bind_of_ok (peek_cons bad more last depth), same token more last depth bad,
        wellFormed?_some bad]
      rfl

theorem peek_eq_stepping :
    peek = stepping fun next last => (wellFormed? next last).bind fun token => .ok (token, false) :=
  (bind_pure peek).symm.trans (peek_bind_eq_stepping fun _ _ _ _ _ => rfl)

/-- A token of a kind is taken up in a step. -/
theorem expect_eq_stepping (kind : Kind) :
    expect kind = stepping fun next last => (wellFormed? next last).bind fun token =>
      if token.kind = kind then .ok (token, true)
      else .error (unexpectedNext kind.describe (some token) token.position) := by
  refine peek_bind_eq_stepping fun token rest last depth well => ?_
  by_cases same : token.kind = kind
  · rw [if_pos same, if_pos same, take_cons well]
    rfl
  · rw [if_neg same, if_neg same]
    rfl

/-- A token that satisfies a condition is taken up in a step. -/
theorem takeIf_eq_stepping :
    takeIf condition = stepping fun next _ => .ok (next.filter condition, next.any condition) := by
  funext ⟨tokens, last, depth⟩
  cases tokens with
  | nil => rfl
  | cons token more =>
    change (if condition token then do
      drop
      return some token else return none : Reading (Option Token)) _ = _
    unfold stepping
    dsimp only [head?_cons, Option.any_some, Option.filter]
    cases condition token <;> rfl

section Stepping

variable {look : Option Token → Position → Except Fault (α × Bool)}
  {step : Token → Except Fault (α × Bool)} {behind : Option Token}

/-- A step takes up a token of a program or none. -/
theorem exists_takes_stepping (used : ∀ next last value, look next last = .ok (value, true) →
      ∃ token, next = some token ∧ token.kind.isUsed = true)
    (blames : ∀ next last fault, look next last = .error fault → fault.Blames behind next)
    (reader : Reader) : ∃ taken, (stepping look).Takes behind reader taken := by
  -- the outcome is decided by the next token and the last one
  have stays {left : List Token} (same : left.head? = reader.tokens.head?) :
      stepping look { reader with tokens := left } =
        match look reader.tokens.head? reader.last with
        | .ok (value, true) => .ok value (past { reader with tokens := left })
        | .ok (value, false) => .ok value { reader with tokens := left }
        | .error fault => .error fault { reader with tokens := left } := by
    rw [stepping, same]
  cases looked : look reader.tokens.head? reader.last with
  | error fault =>
    have run : stepping look reader = .error fault reader := by rw [stepping, looked]
    refine ⟨[], ?_, forall_mem_nil _, ?_, fun left same => ?_⟩
    · rw [after_of_error run, nil_append]
    · intro fault' after' failed
      cases run.symm.trans failed
      exact blames _ _ _ looked
    · rw [after_of_error run] at same
      rw [nil_append, stays same, looked, run]
      rfl
  | ok found =>
    obtain ⟨value, _ | _⟩ := found
    · have run : stepping look reader = .ok value reader := by rw [stepping, looked]
      refine ⟨[], ?_, forall_mem_nil _, ?_, fun left same => ?_⟩
      · rw [after_of_ok run, nil_append]
      · intro fault' after' failed
        cases run.symm.trans failed
      · rw [after_of_ok run] at same
        rw [nil_append, stays same, looked, run]
        rfl
    · obtain ⟨token, first, isUsed⟩ := used _ _ _ looked
      obtain ⟨rest, tokens_eq⟩ := head?_eq_some_iff.mp first
      have run : stepping look reader =
          .ok value { reader with tokens := rest, last := token.position } := by
        rw [stepping, looked]
        dsimp only
        rw [past, tokens_eq]
      refine ⟨[token], ?_, forall_mem_singleton.mpr isUsed, ?_, fun left same => ?_⟩
      · rw [after_of_ok run, tokens_eq, singleton_append]
      · intro fault' after' failed
        cases run.symm.trans failed
      · rw [stays (by rw [first]; rfl), looked, run]
        rfl

theorem takesUp_looking (look : Option Token → Position → α) :
    TakesUp (stepping fun next last => .ok (look next last, false)) :=
  fun _ => exists_takes_stepping (by simp) (by simp)

/-- A step that always fails. -/
theorem takesUp_failing {look : Option Token → Position → Fault}
    (blames : ∀ next last, (look next last).Blames none next) :
    TakesUp (stepping fun next last => .error (look next last) : Reading α) := by
  refine fun behind => exists_takes_stepping (by simp) fun next last fault refused => ?_
  cases refused
  exact (blames next last).or behind

/-- A step on a well-formed token. -/
theorem exists_takes_wellFormed
    (used : ∀ token value, step token = .ok (value, true) → token.kind.isUsed = true)
    (blames : ∀ token fault, step token = .error fault → fault.Blames behind (some token))
    (reader : Reader) :
    ∃ taken, (stepping fun next last => (wellFormed? next last).bind step).Takes behind reader
      taken := by
  refine exists_takes_stepping (fun next last value found => ?_) (fun next last fault refused => ?_) _
  · cases next with
    | none => cases found
    | some token =>
      by_cases bad : token.kind = .malformed
      · rw [wellFormed?_malformed bad] at found
        cases found
      · rw [wellFormed?_some bad] at found
        exact ⟨token, rfl, used token value found⟩
  · cases next with
    | none =>
      cases refused
      rintro _ ⟨⟩
    | some token =>
      by_cases bad : token.kind = .malformed
      · rw [wellFormed?_malformed bad] at refused
        cases refused
        exact ⟨token, rfl, bad, rfl, rfl⟩
      · rw [wellFormed?_some bad] at refused
        exact blames token fault refused

end Stepping

/-- A token that is not expected is the next one. -/
theorem blames_unexpectedNext (next : Option Token) (last : Position) :
    (unexpectedNext expected next last).Blames none next := by
  cases next with
  | none => rintro _ ⟨⟩
  | some token =>
    unfold unexpectedNext Reader.unexpected
    dsimp only [Option.toList]
    split
    · next bad => exact ⟨token, rfl, bad, rfl, rfl⟩
    · rintro _ ⟨⟩
      rfl
    · rintro _ ⟨⟩
      rfl

theorem takesUp_here : TakesUp here := by
  rw [here_eq_stepping]
  exact takesUp_looking _

theorem takesUp_check : TakesUp (check condition) := by
  rw [check_eq_stepping]
  exact takesUp_looking _

theorem takesUp_failExpecting : TakesUp (failExpecting expected : Reading α) := by
  rw [failExpecting_eq_stepping]
  exact takesUp_failing (blames_unexpectedNext expected)

theorem takesUp_tooDeep : TakesUp (do throw ⟨.tooDeep, ← here⟩ : Reading α) := by
  rw [tooDeep_eq_stepping]
  refine takesUp_failing fun next last => ?_
  rintro token rfl
  rfl

theorem takesUp_peek : TakesUp peek := by
  rw [peek_eq_stepping]
  exact fun _ => exists_takes_wellFormed (by simp) (by simp)

/-- A token of a kind is taken up if the kind is part of programs. -/
theorem takesUp_expect (used : kind.isUsed = true) : TakesUp (expect kind) := by
  rw [expect_eq_stepping]
  refine fun behind => exists_takes_wellFormed (fun token value found => ?_)
    fun token fault refused => ?_
  · split at found
    · next same => rw [same, used]
    · cases found
  · split at refused
    · cases refused
    · cases refused
      exact (blames_unexpectedNext _ _ _).or behind

/-- A token of a kind is taken up if it comes next and the kind is part of programs. -/
theorem takesUp_takeIf (used : kind.isUsed = true) :
    TakesUp (takeIf fun token => token.kind = kind) := by
  rw [takeIf_eq_stepping]
  refine fun behind => exists_takes_stepping (fun next last value found => ?_) (by simp)
  have taken : next.any (fun token => token.kind = kind) = true :=
    (Prod.mk.inj (Except.ok.inj found)).2
  cases next with
  | none => cases taken
  | some token => exact ⟨token, rfl, by rw [of_decide_eq_true taken, used]⟩

theorem takesUp_skipIf (used : kind.isUsed = true) : TakesUp (skipIf kind) :=
  (takesUp_takeIf used).bind_pure

/-- What a token announces is read after it. -/
theorem TakesUp.optional {kind : Kind} (following : reading.TakesUp) (used : kind.isUsed = true) :
    TakesUp (optional kind reading) := by
  refine (takesUp_check _).bind fun announced => ?_
  split
  · exact (takesUp_expect used).bind fun _ => following.bind_pure
  · exact takesUp_pure _

/-! ## Nesting -/

/-- Entering one more level changes only the depth. -/
theorem takesUp_deepen : TakesUp deepen := by
  intro behind reader
  by_cases shallow : reader.depth < maxDepth
  · have run (tokens : List Token) : (deepen : Reading _) { reader with tokens := tokens } =
        .ok () ⟨tokens, reader.last, reader.depth + 1⟩ := by
      rw [deepen_eq]
      exact if_pos shallow
    refine ⟨[], ?_, forall_mem_nil _, ?_, fun left same => ?_⟩
    · rw [after_of_ok (run reader.tokens), nil_append]
    · intro fault after failed
      cases (run reader.tokens).symm.trans failed
    · rw [nil_append, run left, run reader.tokens]
      rfl
  · have run (tokens : List Token) : (deepen : Reading _) { reader with tokens := tokens } =
        (do throw ⟨.tooDeep, ← here⟩ : Reading Unit) { reader with tokens := tokens } := by
      rw [deepen_eq]
      exact if_neg shallow
    obtain ⟨taken, takes⟩ := takesUp_tooDeep behind reader
    exact ⟨taken, takes.congr run⟩

/-- Only the depth is returned to. -/
theorem after_restoringDepth (reading : Reading α) (reader : Reader) :
    (restoringDepth reading).after reader = { reading.after reader with depth := reader.depth } := by
  rw [after, restoringDepth_eq, after]
  cases reading reader <;> rfl

/-- A fault is passed on. -/
theorem exists_error_of_restoringDepth {fault : Fault} {after : Reader}
    (failed : restoringDepth reading reader = .error fault after) :
    ∃ between, reading reader = .error fault between ∧
      after = { between with depth := reader.depth } := by
  rw [restoringDepth_eq] at failed
  cases run : reading reader with
  | ok value between => rw [run] at failed; cases failed
  | error fault' between =>
    rw [run] at failed
    cases failed
    exact ⟨between, rfl, rfl⟩

/-- Returning to the depth from before takes up no token. -/
theorem TakesUp.restoringDepth (takes : reading.TakesUp) : TakesUp (restoringDepth reading) := by
  intro behind reader
  obtain ⟨taken, here⟩ := takes behind reader
  refine ⟨taken, ?_, here.used, ?_, fun left same => ?_⟩
  · rw [after_restoringDepth]
    exact here.tokens_eq
  · intro fault after failed
    obtain ⟨between, run, rfl⟩ := exists_error_of_restoringDepth failed
    have blames := here.blames run
    exact blames
  · rw [after_restoringDepth] at same
    rw [restoringDepth_eq, restoringDepth_eq, here.looks left same]
    cases reading reader <;> rfl

theorem TakesUp.nested (takes : reading.TakesUp) : TakesUp (nested reading) :=
  (takesUp_deepen.bind fun _ => takes).restoringDepth

/-! ## Repetition -/

/-- Whether a reading takes a token whenever it succeeds. -/
def Shortens (reading : Reading α) : Prop :=
  ∀ {reader value after}, reading reader = .ok value after →
    after.tokens.length < reader.tokens.length

/-- A reading advances if it takes up tokens of a program, and at least one whenever it succeeds. -/
structure Advances (reading : Reading α) : Prop where
  /-- It takes up tokens of a program only. -/
  takesUp : reading.TakesUp
  /-- It takes up a token whenever it succeeds. -/
  length_lt : reading.Shortens

theorem TakesUp.length_le (takes : reading.TakesUp) {value : α} {after : Reader}
    (run : reading reader = .ok value after) : after.tokens.length ≤ reader.tokens.length := by
  obtain ⟨taken, here⟩ := takes none reader
  rw [here.tokens_eq, after_of_ok run, length_append]
  exact Nat.le_add_left _ _

/-- A token that was taken is not put back. -/
theorem Shortens.bind (shortens : reading.Shortens) (takes : ∀ value, (next value).TakesUp) :
    Shortens (reading >>= next) := by
  intro reader value after run
  obtain ⟨found, between, run, run'⟩ := bind_eq_ok.mp run
  exact Nat.lt_of_le_of_lt ((takes found).length_le run') (shortens run)

theorem Advances.bind (advances : reading.Advances) (takes : ∀ value, (next value).TakesUp) :
    Advances (reading >>= next) :=
  ⟨advances.takesUp.bind takes, Shortens.bind advances.length_lt takes⟩

/-- Readings in a row advance if what follows the first of them does. -/
theorem TakesUp.bind_advances (takes : reading.TakesUp) (advances : ∀ value, (next value).Advances) :
    Advances (reading >>= next) := by
  refine ⟨takes.bind fun value => (advances value).takesUp, fun run => ?_⟩
  obtain ⟨found, between, run, run'⟩ := bind_eq_ok.mp run
  exact Nat.lt_of_lt_of_le ((advances found).length_lt run') (takes.length_le run)

theorem Advances.bind_pure (advances : reading.Advances) : Advances (do return form (← reading)) :=
  advances.bind fun _ => takesUp_pure _

theorem Advances.map (advances : reading.Advances) : Advances (form <$> reading) := by
  rw [map_eq_pure_bind]
  exact advances.bind_pure

/-- A token of a kind is read where it comes next. -/
theorem exists_tokens_eq_of_expect {after : Reader}
    (run : (expect kind : Reading _) reader = .ok token after) :
    ∃ rest, reader.tokens = token :: rest ∧ token.kind = kind ∧
      after = ⟨rest, token.position, reader.depth⟩ := by
  obtain ⟨tokens, last, depth⟩ := reader
  cases tokens with
  | nil => cases run
  | cons next rest =>
    by_cases bad : next.kind = .malformed
    · rw [expect, bind_of_error (peek_malformed bad rest last depth)] at run
      cases run
    · by_cases same : next.kind = kind
      · subst same
        rw [expect_cons bad] at run
        cases run
        exact ⟨rest, rfl, rfl, rfl⟩
      · rw [expect, bind_of_ok (peek_cons bad rest last depth), if_neg same] at run
        cases run

theorem shortens_expect (kind : Kind) : Shortens (expect kind) := by
  intro reader token after run
  obtain ⟨rest, tokens_eq, -, rfl⟩ := exists_tokens_eq_of_expect run
  rw [tokens_eq]
  exact Nat.lt_succ_self _

theorem advances_expect (used : kind.isUsed = true) : Advances (expect kind) :=
  ⟨takesUp_expect used, shortens_expect kind⟩

theorem advances_failExpecting : Advances (failExpecting expected : Reading α) :=
  ⟨takesUp_failExpecting expected, nofun⟩

theorem advances_tooDeep : Advances (do throw ⟨.tooDeep, ← here⟩ : Reading α) :=
  ⟨takesUp_tooDeep, nofun⟩

/-- Returning to the depth from before changes only the depth. -/
theorem Advances.restoringDepth (advances : reading.Advances) :
    Advances (restoringDepth reading) := by
  refine ⟨advances.takesUp.restoringDepth, fun run => ?_⟩
  obtain ⟨between, begun, rfl⟩ := restoringDepth_eq_ok.mp run
  have fewer := advances.length_lt begun
  exact fewer

theorem Advances.nested (advances : reading.Advances) : Advances (nested reading) :=
  (takesUp_deepen.bind_advances fun _ => advances).restoringDepth

/-- A condition on the next token is looked up and the reader stays. -/
theorem check_eq_ok (reader : Reader) :
    (check condition : Reading _) reader = .ok (reader.tokens.head?.any condition) reader := by
  rw [check_eq_stepping]
  rfl

/-- What follows a reading matters only where the reading succeeds. -/
theorem bind_congr_at {next' : α → Reading β}
    (same : ∀ value between, reading reader = .ok value between →
      next value between = next' value between) :
    (reading >>= next) reader = (reading >>= next') reader := by
  cases run : reading reader with
  | ok value between => rw [bind_of_ok run, bind_of_ok run, same value between run]
  | error fault between => rw [bind_of_error run, bind_of_error run]

/-- Readings that do the same from a reader on may begin a row. -/
theorem bind_congr_first {reading' : Reading α} (same : reading reader = reading' reader) :
    (reading >>= next) reader = (reading' >>= next) reader := by
  cases run : reading' reader with
  | ok value between => rw [bind_of_ok (same.trans run), bind_of_ok run]
  | error fault between => rw [bind_of_error (same.trans run), bind_of_error run]

section Repetition

variable {ends : Kind → Bool} {item : Reading α}

/-- The items within a budget for all tokens are an item and the items within the rest of the
budget. -/
theorem manyUntilWithin_eq (shortens : item.Shortens) {budget : Nat}
    (enough : reader.tokens.length ≤ budget) :
    manyUntilWithin ends item budget reader =
      (do
        if ← check (fun token => ends token.kind) then return []
        else
          let first ← item
          return first :: (← manyUntilWithin ends item (budget - 1)) : Reading (List α)) reader := by
  cases budget with
  | succ budget => rfl
  | zero =>
    -- no token is left, so no item is read
    unfold manyUntilWithin
    rw [bind_of_ok (check_eq_ok _ reader), bind_of_ok (check_eq_ok _ reader)]
    split
    · rfl
    · refine bind_congr_at fun first between run => ?_
      exact absurd (shortens run) (Nat.not_lt_of_le (Nat.le_trans enough (Nat.zero_le _)))

/-- A budget for all tokens is as good as any other. -/
theorem manyUntilWithin_congr (shortens : item.Shortens) {budget budget' : Nat}
    (enough : reader.tokens.length ≤ budget) (enough' : reader.tokens.length ≤ budget') :
    manyUntilWithin ends item budget reader = manyUntilWithin ends item budget' reader := by
  induction length : reader.tokens.length using Nat.strongRecOn
    generalizing reader budget budget' with
  | ind length ih =>
    rw [manyUntilWithin_eq shortens enough, manyUntilWithin_eq shortens enough',
      bind_of_ok (check_eq_ok _ reader), bind_of_ok (check_eq_ok _ reader)]
    split
    · rfl
    · refine bind_congr_at fun first between run => ?_
      have fewer := shortens run
      exact bind_congr_first (ih between.tokens.length (length ▸ fewer) (by omega) (by omega) rfl)

/-- Items are read one after another up to a token that ends them. -/
theorem manyUntil_eq (shortens : item.Shortens) :
    manyUntil ends item = do
      if ← check (fun token => ends token.kind) then return []
      else
        let first ← item
        return first :: (← manyUntil ends item) := by
  funext reader
  have within (reader : Reader) : manyUntil ends item reader =
      manyUntilWithin ends item reader.tokens.length reader := rfl
  rw [within, manyUntilWithin_eq shortens (Nat.le_refl _), bind_of_ok (check_eq_ok _ reader),
    bind_of_ok (check_eq_ok _ reader)]
  split
  · rfl
  · refine bind_congr_at fun first between run => bind_congr_first ?_
    have fewer := shortens run
    rw [within]
    exact manyUntilWithin_congr shortens (by omega) (Nat.le_refl _)

variable (ends) in
/-- Items are read from a token on unless it ends them. -/
theorem manyUntil_cons (advances : item.Advances) (token : Token) (rest : List Token)
    (last : Position) (depth : Nat) :
    manyUntil ends item ⟨token :: rest, last, depth⟩ =
      if ends token.kind then .ok [] ⟨token :: rest, last, depth⟩
      else (do
        let first ← item
        return first :: (← manyUntil ends item) : Reading (List α)) ⟨token :: rest, last, depth⟩ := by
  refine (congrFun (manyUntil_eq advances.length_lt) _).trans ?_
  rw [bind_of_ok (check_eq_ok _ _)]
  cases ended : ends token.kind with
  | true => rw [head?_cons, Option.any_some, ended]; rfl
  | false => rw [head?_cons, Option.any_some, ended]; rfl

/-- Items are read up to a token that ends them. -/
theorem Advances.manyUntil (ends : Kind → Bool) (advances : item.Advances) :
    TakesUp (manyUntil ends item) := by
  intro behind reader
  -- every item takes up a token, so fewer are left for the items behind it
  induction length : reader.tokens.length using Nat.strongRecOn generalizing behind reader with
  | ind length ih =>
    rw [manyUntil_eq advances.length_lt]
    obtain ⟨looked, look⟩ := takesUp_check (fun token => ends token.kind) behind reader
    refine exists_takes_bind look fun ended between checked => ?_
    cases (check_eq_ok _ reader).symm.trans checked
    split
    · exact takesUp_pure _ _ reader
    · obtain ⟨taken, first⟩ := advances.takesUp (looked.getLast?.or behind) reader
      refine exists_takes_bind first fun value between run => ?_
      obtain ⟨taken', rest⟩ := ih between.tokens.length (length ▸ advances.length_lt run)
        (taken.getLast?.or (looked.getLast?.or behind)) between rfl
      exact exists_takes_bind rest fun values after _ => takesUp_pure _ _ after

/-- Items are read as long as no token that ends them comes next. -/
theorem ends_of_manyUntil (advances : item.Advances) {values : List α} {after : Reader}
    (run : manyUntil ends item reader = .ok values after) :
    after.tokens.head?.any (fun token => ends token.kind) = true := by
  induction length : reader.tokens.length using Nat.strongRecOn generalizing reader values with
  | ind length ih =>
    rw [manyUntil_eq advances.length_lt, bind_of_ok (check_eq_ok _ reader)] at run
    split at run
    · next ended =>
        cases run
        exact ended
    · obtain ⟨first, between, begun, run⟩ := bind_eq_ok.mp run
      obtain ⟨rest, _, further, ⟨⟩⟩ := bind_eq_ok.mp run
      exact ih between.tokens.length (length ▸ advances.length_lt begun) further rfl

section Separated

variable (takes : item.TakesUp) {separator close : Kind} (used : separator.isUsed = true)
  (used' : close.isUsed = true)

include takes used

/-- Items are read with tokens between them. -/
theorem TakesUp.separated (close : Kind) : TakesUp (separated separator close item) :=
  takes.bind fun _ => (((advances_expect used).bind fun _ => takes).manyUntil _).bind_pure

include used'

/-- Items with tokens between them are read together with the token that ends them. -/
theorem TakesUp.closed : TakesUp (closed separator close item) :=
  (takes.separated used close).bind fun _ => (takesUp_expect used').bind_pure

/-- The same where there may be no items at all. -/
theorem TakesUp.listed : TakesUp (listed separator close item) := by
  refine (takesUp_check _).bind fun empty => ?_
  dsimp only
  split
  · exact (takesUp_expect used').bind_pure
  · exact takes.closed used used'

end Separated

end Repetition

end Reading

end ClassLang
