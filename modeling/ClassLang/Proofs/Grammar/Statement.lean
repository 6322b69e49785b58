import ClassLang.Proofs.Grammar.Expression

/-! # Reading statements by the grammar

The readings of statements match their productions if the readings of the expressions and statements
inside them do. So the readings of the constructs that nest match level by level: a grammar matches if
the grammar one level deeper does, and where no level is left nothing nested can be read. -/

namespace ClassLang

open Cursor Reading Stmt

namespace Grammar

variable {levels depth : Nat} {expr : Reading Expr} {statement : Reading Stmt} {c₀ c₁ : Cursor}

/-! ## Statements -/

theorem repeated_statements {stmts : List Stmt} :
    Repeated (fun stmt => Derives levels (.statement stmt)) stmts c₀ c₁ ↔
      Derives levels (.statements stmts) c₀ c₁ :=
  repeated_iff (fun stmts => Derives levels (.statements stmts)) .noStatements .statements
    (fun | .noStatements => rfl) (fun | .statements first further => ⟨_, first, further⟩)

/-- A semicolon is read if it comes next. -/
theorem matches_semicolon (levels : Nat) :
    Matches (skipIf (.symbol .semicolon)) depth fun _ => Derives levels .semicolon := by
  refine Matches.congr (matches_takeIf_bind (.symbol .semicolon) nofun (fun _ => matches_pure ())
    (matches_pure ())) fun _ c₀ c₁ => ?_
  constructor
  · rintro (⟨_, _, signed, -, rfl⟩ | ⟨stops, -, rfl⟩)
    · exact .semicolon signed
    · exact .noSemicolon stops
  · intro derived
    cases derived with
    | semicolon signed => exact .inl ⟨_, _, signed, rfl, rfl⟩
    | noSemicolon stops => exact .inr ⟨stops, rfl, rfl⟩

section Statements

variable (exprs : Matches expr depth fun expr => Derives levels (.operand 1 expr))

include exprs in
/-- A name with an initial value is read by its production. -/
theorem matches_binding :
    Matches (binding expr) depth fun field => Derives levels (.binding field) := by
  refine Matches.congr ((matches_expect (.keyword .varWord) nofun).bind fun word =>
    matches_name_bind fun name => (matches_expect (.symbol .colon) nofun).bind fun _ =>
      exprs.bind fun init => matches_pure (⟨name.text, init, word.position⟩ : Field))
        fun field c₀ c₄ => ?_
  constructor
  · rintro ⟨word, c₁, worded, name, c₂, named, colon, c₃, marked, init, _, value, rfl, rfl⟩
    exact .binding worded named marked value
  · intro derived
    cases derived with | binding worded named marked value
    exact ⟨_, _, worded, _, _, named, _, _, marked, _, _, value, rfl, rfl⟩

variable (stmts : Matches statement depth fun stmt => Derives levels (.statement stmt))

include stmts in
/-- Statements are read until a word that ends a block. -/
theorem matches_statements {ends : Kind → Bool}
    (words : ∀ kind, ends kind = true → kind = .keyword .elseWord ∨ kind = .keyword .endWord) :
    Matches (manyUntil ends statement) depth fun stmts c₀ c₁ =>
      Derives levels (.statements stmts) c₀ c₁ ∧ c₁.NextEnds ends := by
  have starts : ∀ {stmt c₀ c₁}, Derives levels (.statement stmt) c₀ c₁ →
      Starts (ends · = false) c₀ c₁ := by
    intro stmt c₀ c₁ derived
    refine derived.starts_statement.mono fun kind others => Bool.eq_false_iff.mpr fun ending => ?_
    exact (words kind ending).elim others.1 others.2
  refine (matches_manyUntil stmts starts).congr fun stmts c₀ c₁ => ?_
  rw [repeated_statements]

section Words

/-! ### Statements by their first token -/

variable {cursor : Cursor} {token : Token} (complete : Token.Complete cursor.tokens)
  (found : cursor.next? = some token)

include found in
theorem startsWith_of_derives {kind : Kind} (same : token.kind = kind) {stmt : Stmt} {place : Cursor}
    (derived : Derives levels (.statementBody stmt) cursor place) : stmt.StartsWith kind := by
  obtain ⟨_, _, _, step, starts, -⟩ := derived.starts_statementBody
  obtain rfl := step.eq_of_next? found
  rwa [← same, step.kind_eq]

include exprs complete found in
/-- A declaration of a variable is read by its production. -/
theorem matchesAt_declare (kind : token.kind = .keyword .varWord) :
    MatchesAt (do
      let field ← binding expr
      return declare field.name field.init token.position) depth cursor
      fun stmt => Derives levels (.statementBody stmt) cursor := by
  refine MatchesAt.congr ((matches_binding exprs).bind (fun field =>
    matches_pure (declare field.name field.init token.position)) cursor complete)
      fun stmt place => ?_
  constructor
  · rintro ⟨_, _, bound, rfl, rfl⟩
    cases bound with | binding worded named marked value
    obtain rfl := worded.eq_of_next? found
    exact .declare (.binding worded named marked value)
  · intro derived
    have starts := startsWith_of_derives found kind derived
    cases derived with
    | declare bound =>
      cases bound with | binding worded named marked value
      obtain rfl := worded.eq_of_next? found
      exact ⟨_, _, .binding worded named marked value, rfl, rfl⟩
    | _ => cases starts

include exprs stmts complete found in
/-- A branch is read by its production. -/
theorem matchesAt_branch (kind : token.kind = .keyword .ifWord) :
    MatchesAt (do
      let _ ← expect (.keyword .ifWord)
      let test ← expr
      let _ ← expect (.keyword .thenWord)
      let body ←
        manyUntil (fun kind => kind = .keyword .elseWord || kind = .keyword .endWord) statement
      let alternative ← Reading.optional (.keyword .elseWord) (statements statement)
      let _ ← expect (.keyword .endWord)
      return branch test body alternative token.position) depth cursor
      fun stmt => Derives levels (.statementBody stmt) cursor := by
  refine MatchesAt.congr ((matches_expect (.keyword .ifWord) nofun).bind (fun _ => exprs.bind
    fun test => (matches_expect (.keyword .thenWord) nofun).bind fun _ =>
      (matches_statements stmts fun kind => by simp).bind fun body =>
        (matches_optional (.keyword .elseWord) nofun
          (matches_statements stmts fun kind => by simp +contextual)).bind fun alternative =>
            (matches_expect (.keyword .endWord) nofun).bind fun _ =>
              matches_pure (branch test body alternative token.position)) cursor complete)
    fun stmt place => ?_
  constructor
  · rintro ⟨word, _, worded, test, _, tested, _, _, marked, body, _, ⟨taken, -⟩, _, _,
      ⟨_, _, _, rfl, elsewise, otherwise, -⟩ | ⟨rfl, -, rfl⟩, _, _, closes, rfl, rfl⟩
    · obtain rfl := worded.eq_of_next? found
      exact .branch worded tested marked taken (.alternative elsewise otherwise) closes
    · obtain rfl := worded.eq_of_next? found
      exact .branch worded tested marked taken .noAlternative closes
  · intro derived
    have starts := startsWith_of_derives found kind derived
    cases derived with
    | branch worded tested marked taken otherwise closes =>
      obtain rfl := worded.eq_of_next? found
      -- what stands behind the body ends it: the word `else` or the word `end`
      cases otherwise with
      | noAlternative =>
        exact ⟨_, _, worded, _, _, tested, _, _, marked, _, _, ⟨taken, closes.nextEnds rfl⟩, none,
          _, .inr ⟨rfl, closes.lacks_kind nofun, rfl⟩, _, _, closes, rfl, rfl⟩
      | alternative elsewise body =>
        exact ⟨_, _, worded, _, _, tested, _, _, marked, _, _, ⟨taken, elsewise.nextEnds rfl⟩,
          some _, _, .inl ⟨_, _, _, rfl, elsewise, body, closes.nextEnds rfl⟩, _, _, closes, rfl,
          rfl⟩
    | _ => cases starts

include exprs stmts complete found in
/-- A loop is read by its production. -/
theorem matchesAt_loop (kind : token.kind = .keyword .whileWord) :
    MatchesAt (do
      let _ ← expect (.keyword .whileWord)
      let test ← expr
      let _ ← expect (.keyword .loopWord)
      let body ← statements statement
      let _ ← expect (.keyword .endWord)
      return loop test body token.position) depth cursor
      fun stmt => Derives levels (.statementBody stmt) cursor := by
  refine MatchesAt.congr ((matches_expect (.keyword .whileWord) nofun).bind (fun _ => exprs.bind
    fun test => (matches_expect (.keyword .loopWord) nofun).bind fun _ =>
      (matches_statements stmts fun kind => by simp +contextual).bind fun body =>
        (matches_expect (.keyword .endWord) nofun).bind fun _ =>
          matches_pure (loop test body token.position)) cursor complete) fun stmt place => ?_
  constructor
  · rintro ⟨word, _, worded, test, _, tested, _, _, marked, body, _, ⟨repeated, -⟩, _, _, closes, rfl,
      rfl⟩
    obtain rfl := worded.eq_of_next? found
    exact .loop worded tested marked repeated closes
  · intro derived
    have starts := startsWith_of_derives found kind derived
    cases derived with
    | loop worded tested marked repeated closes =>
      obtain rfl := worded.eq_of_next? found
      exact ⟨_, _, worded, _, _, tested, _, _, marked, _, _, ⟨repeated, closes.nextEnds rfl⟩, _, _,
        closes, rfl, rfl⟩
    | _ => cases starts

include exprs complete found in
/-- A return is read by its production. -/
theorem matchesAt_ret (kind : token.kind = .keyword .returnWord) :
    MatchesAt (do
      let _ ← expect (.keyword .returnWord)
      return ret (← expr) token.position) depth cursor
      fun stmt => Derives levels (.statementBody stmt) cursor := by
  refine MatchesAt.congr ((matches_expect (.keyword .returnWord) nofun).bind (fun _ => exprs.bind
    fun value => matches_pure (ret value token.position)) cursor complete) fun stmt place => ?_
  constructor
  · rintro ⟨word, _, worded, value, _, returned, rfl, rfl⟩
    obtain rfl := worded.eq_of_next? found
    exact .ret worded returned
  · intro derived
    have starts := startsWith_of_derives found kind derived
    cases derived with
    | ret worded returned =>
      obtain rfl := worded.eq_of_next? found
      exact ⟨_, _, worded, _, _, returned, rfl, rfl⟩
    | _ => cases starts

include complete found in
/-- Leaving a loop is read by its production. -/
theorem matchesAt_leave (kind : token.kind = .keyword .breakWord) :
    MatchesAt (do
      let _ ← expect (.keyword .breakWord)
      return leave token.position) depth cursor
      fun stmt => Derives levels (.statementBody stmt) cursor := by
  refine MatchesAt.congr ((matches_expect (.keyword .breakWord) nofun).bind (fun _ =>
    matches_pure (leave token.position)) cursor complete) fun stmt place => ?_
  constructor
  · rintro ⟨word, _, worded, rfl, rfl⟩
    obtain rfl := worded.eq_of_next? found
    exact .leave worded
  · intro derived
    have starts := startsWith_of_derives found kind derived
    cases derived with
    | leave worded =>
      obtain rfl := worded.eq_of_next? found
      exact ⟨_, _, worded, rfl, rfl⟩
    | _ => cases starts

include exprs complete found in
/-- An assignment or an expression of its own is read by its production, where no word of another
statement comes next. -/
theorem matchesAt_assign_or_eval (noVar : token.kind ≠ .keyword .varWord)
    (noIf : token.kind ≠ .keyword .ifWord) (noWhile : token.kind ≠ .keyword .whileWord)
    (noReturn : token.kind ≠ .keyword .returnWord) (noBreak : token.kind ≠ .keyword .breakWord) :
    MatchesAt (do
      let target ← expr
      match ← takeIf (fun token => token.kind = .symbol .assign) with
      | some _ => return assign target (← expr) token.position
      | none => return eval target token.position) depth cursor
      fun stmt => Derives levels (.statementBody stmt) cursor := by
  refine MatchesAt.congr (exprs.bind (fun target => matches_takeIf_bind (.symbol .assign) nofun
    (fun _ => exprs.bind fun value => matches_pure (assign target value token.position))
    (matches_pure (eval target token.position))) cursor complete) fun stmt place => ?_
  constructor
  · rintro ⟨target, _, aimed, ⟨sign, _, signed, value, _, given, rfl, rfl⟩ | ⟨stops, rfl, rfl⟩⟩
    · exact .assign found aimed signed given
    · exact .eval found aimed stops
  · intro derived
    have starts := startsWith_of_derives found rfl derived
    cases derived with
    | assign first aimed signed given =>
      obtain rfl := Option.some_inj.mp (first.symm.trans found)
      exact ⟨_, _, aimed, .inl ⟨_, _, signed, _, _, given, rfl, rfl⟩⟩
    | eval first evaluated stops =>
      obtain rfl := Option.some_inj.mp (first.symm.trans found)
      exact ⟨_, _, evaluated, .inr ⟨stops, rfl, rfl⟩⟩
    | declare _ => exact absurd starts noVar
    | branch _ _ _ _ _ _ => exact absurd starts noIf
    | loop _ _ _ _ _ => exact absurd starts noWhile
    | ret _ _ => exact absurd starts noReturn
    | leave _ => exact absurd starts noBreak

end Words

include exprs stmts in
/-- A statement without the semicolon is read by its production. -/
theorem matches_statementBody :
    Matches (statementBody expr statement) depth fun stmt => Derives levels (.statementBody stmt) := by
  intro cursor complete
  obtain ⟨token, rest, last, eq, well⟩ := exists_next complete
  have found : cursor.next? = some token := by
    rw [eq]
    rfl
  refine .bind_look token.position (eq ▸ here_reader) (.bind_look token (eq ▸ peek_reader well) ?_)
  split
  · exact matchesAt_declare exprs complete found ‹_›
  · exact matchesAt_branch exprs stmts complete found ‹_›
  · exact matchesAt_loop exprs stmts complete found ‹_›
  · exact matchesAt_ret exprs complete found ‹_›
  · exact matchesAt_leave complete found ‹_›
  · exact matchesAt_assign_or_eval exprs complete found ‹_› ‹_› ‹_› ‹_› ‹_›

end Statements

/-! ## Levels -/

/-- The readings of a grammar match the productions at one depth, with the levels left there. -/
structure Follows (grammar : Grammar Reading) (levels depth : Nat) : Prop where
  type : Matches grammar.type depth fun type => Derives levels (.type type)
  operand : ∀ least, Matches (grammar.operand least) depth fun expr =>
    Derives levels (.operand least expr)
  binary : ∀ least, Matches (grammar.binary least) depth fun expr =>
    Derives levels (.binary least expr)
  /-- Operators in a row are read by their production, except that the depth grows with them. -/
  chain : ∀ least left, Matches (restoringDepth (grammar.chain least left)) depth fun expr =>
    Derives levels (.chain least left expr)
  statement : Matches grammar.statement depth fun stmt => Derives levels (.statement stmt)

section Levels

variable {inner : Grammar Reading} (total : depth + levels = maxDepth)
  (deeper : ∀ less, levels = less + 1 → inner.Follows less (depth + 1))

include total deeper

/-- The operators and right operands that continue an operand are read by their production. -/
theorem matches_chainBody (least : Nat) (left : Expr) :
    Matches (restoringDepth (chainBody inner least left)) depth fun expr =>
      Derives levels (.chain least left expr) := by
  refine Matches.congr ((matches_operator? least).bind_restoringDepth (fun found expr c₁ c₃ =>
    found.elim (expr = left ∧ c₃ = c₁) fun next =>
      (∃ token, c₁.next? = some token ∧ startsOperand token.kind = true ∧
        token.position.line = next.2.position.line) ∧
          ∃ less, levels = less + 1 ∧
            ∃ right c₂, Derives less (.operand (next.1.precedence + 1) right) c₁ c₂ ∧
              Derives less (.chain least (.binary next.1 left right left.position) expr) c₂ c₃) ?_) ?_
  · rintro (_ | ⟨op, sign⟩)
    · exact (matches_pure left).restoringDepth
    · refine Matches.congr ((matches_checkOperand sign).bind_restoringDepth _ fun _ =>
        matches_nested total fun less eq => ((deeper less eq).operand _).bind_restoringDepth _
          fun right => (deeper less eq).chain least _) fun expr c₁ c₃ => ?_
      constructor
      · rintro ⟨_, _, ⟨fits, rfl⟩, rest⟩
        exact ⟨fits, rest⟩
      · rintro ⟨fits, rest⟩
        exact ⟨(), c₁, ⟨fits, rfl⟩, rest⟩
  · intro expr c₀ c₃
    constructor
    · rintro ⟨_ | ⟨op, sign⟩, c₁, next, rest⟩
      · obtain ⟨stops, rfl⟩ := next
        obtain ⟨rfl, rfl⟩ := rest
        exact .chainEnd stops
      · obtain ⟨signed, binds⟩ := next
        obtain ⟨⟨token, found, -, line⟩, less, rfl, right, c₂, second, continues⟩ := rest
        exact .chain signed binds ⟨token, found, line⟩ second continues
    · intro derived
      cases derived with
      | chainEnd stops => exact ⟨none, c₀, ⟨stops, rfl⟩, rfl, rfl⟩
      | chain signed binds sameLine second continues =>
        -- that the operand can start there is checked apart, but follows from its derivation
        obtain ⟨token, found, line⟩ := sameLine
        obtain ⟨kind, token', _, starting, starts, -⟩ := second.starts_operand
        obtain rfl := starting.eq_of_next? found
        exact ⟨some (_, _), _, ⟨signed, binds⟩,
          ⟨token', found, by rw [starting.kind_eq]; exact starts, line⟩, _, rfl, _, _, second, continues⟩

/-- A grammar around one that matches one level deeper matches. -/
theorem follows_around : inner.around.Follows levels depth := by
  have types : Matches inner.around.type depth fun type => Derives levels (.type type) := by
    refine Matches.congr (matches_nested total fun less eq =>
      (matches_typeBody (deeper less eq).type).restoringDepth) fun type c₀ c₁ => ?_
    constructor
    · rintro ⟨less, rfl, derived⟩
      exact derived
    · intro derived
      cases derived with | type named applied
      exact ⟨_, rfl, .type named applied⟩
  have operands : ∀ least, Matches (inner.around.operand least) depth fun expr =>
      Derives levels (.operand least expr) := by
    intro least
    refine Matches.congr (matches_nested total fun less eq =>
      ((deeper less eq).binary least).restoringDepth) fun expr c₀ c₁ => ?_
    constructor
    · rintro ⟨less, rfl, parts⟩
      exact .operand parts
    · intro derived
      cases derived with | operand parts
      exact ⟨_, rfl, parts⟩
  refine ⟨types, operands, fun least => ?_, matches_chainBody total deeper, ?_⟩
  · refine Matches.congr ((matches_postfixed types (operands 1)).bind_restoringDepth _ fun left =>
      matches_chainBody total deeper least left) fun expr c₀ c₂ => ?_
    constructor
    · rintro ⟨left, c₁, first, continues⟩
      exact .binary first continues
    · intro derived
      cases derived with | binary first continues
      exact ⟨_, _, first, continues⟩
  · refine Matches.congr ((matches_nested total fun less eq => (matches_statementBody
      ((deeper less eq).operand 1) (deeper less eq).statement).restoringDepth).bind fun stmt =>
        (matches_semicolon levels).bind fun _ => matches_pure stmt) fun stmt c₀ c₂ => ?_
    constructor
    · rintro ⟨_, c₁, ⟨less, rfl, body⟩, _, _, ends, rfl, rfl⟩
      exact .statement body ends.semicolon_levels
    · intro derived
      cases derived with | statement body ends
      exact ⟨_, _, ⟨_, rfl, body⟩, (), _, ends.semicolon_levels, rfl, rfl⟩

end Levels

/-- The grammar with one more level than are left matches the productions. -/
theorem follows_ofLevels (levels depth : Nat) (total : depth + levels = maxDepth) :
    (ofLevels (levels + 1)).Follows levels depth := by
  induction levels generalizing depth with
  -- at the deepest level the grammar inside is never asked for anything
  | zero => exact follows_around total fun _ eq => nomatch eq
  | succ levels ih =>
    refine follows_around total fun less eq => ?_
    obtain rfl := Nat.succ.inj eq
    exact ih (depth + 1) (by omega)

end Grammar

end ClassLang
