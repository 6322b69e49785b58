import ClassLang.Proofs.Grammar.Matching

/-! # Reading expressions by the grammar

The readings of types, of expressions without operators and of single operators match their
productions if the readings of the types and expressions inside them do. -/

namespace ClassLang

open Cursor Reading

namespace Grammar

variable {levels depth : Nat} {type : Reading TypeRef} {expr : Reading Expr} {c₀ c₁ : Cursor}

/-! ## Types -/

/-- Further types are types behind commas. -/
theorem repeated_types {types : List TypeRef} :
    Repeated (Behind (.symbol .comma) fun type => Derives levels (.type type)) types c₀ c₁ ↔
      Derives levels (.furtherTypes types) c₀ c₁ :=
  repeated_iff (fun types => Derives levels (.furtherTypes types)) .noFurtherTypes
    (fun ⟨_, _, separates, first⟩ further => .furtherTypes separates first further)
    (fun | .noFurtherTypes => rfl)
    (fun | .furtherTypes separates first further => ⟨_, ⟨_, _, separates, first⟩, further⟩)

section Types

variable (types : Matches type depth fun type => Derives levels (.type type))

include types

/-- The types that a name is applied to are read by their production. -/
theorem matches_typeArguments :
    Matches (typeArguments type) depth fun arguments => Derives levels (.typeArguments arguments) := by
  refine Matches.congr ((matches_optional (.symbol .leftBracket) nofun
    (matches_closed (.symbol .comma) (.symbol .rightBracket) types Derives.passes nofun nofun
      nofun)).bind fun found => matches_pure (found.getD [])) fun arguments c₀ c₁ => ?_
  constructor
  · rintro ⟨_, _, ⟨_, opening, c₁, rfl, opens, first, further, c₂, c₃, closing, rfl, holds, repeated,
      closes⟩ | ⟨rfl, lacks, rfl⟩, rfl, rfl⟩
    · exact .typeArguments opens holds (repeated_types.mp repeated) closes
    · exact .noTypeArguments lacks
  · intro derived
    cases derived with
    | noTypeArguments stops => exact ⟨none, c₀, .inr ⟨rfl, stops, rfl⟩, rfl, rfl⟩
    | typeArguments opens first further closes =>
      exact ⟨some _, c₁, .inl ⟨_, _, _, rfl, opens, _, _, _, _, _, rfl, first,
        repeated_types.mpr further, closes⟩, rfl, rfl⟩

/-- A type is read by its production, which takes a level. -/
theorem matches_typeBody :
    Matches (typeBody type) depth fun type => Derives (levels + 1) (.type type) := by
  refine Matches.congr (matches_name_bind fun name => (matches_typeArguments types).bind
    fun arguments => matches_pure (⟨name.text, arguments, name.position⟩ : TypeRef)) fun type c₀ c₂ => ?_
  constructor
  · rintro ⟨name, c₁, named, arguments, _, applied, rfl, rfl⟩
    exact .type named applied
  · intro derived
    cases derived with | type named applied
    exact ⟨_, _, named, _, _, applied, rfl, rfl⟩

end Types

/-! ## Expressions -/

/-- Further expressions are expressions behind commas. -/
theorem repeated_exprs {exprs : List Expr} :
    Repeated (Behind (.symbol .comma) fun expr => Derives levels (.operand 1 expr)) exprs c₀ c₁ ↔
      Derives levels (.furtherExprs exprs) c₀ c₁ :=
  repeated_iff (fun exprs => Derives levels (.furtherExprs exprs)) .noFurtherExprs
    (fun ⟨_, _, separates, first⟩ further => .furtherExprs separates first further)
    (fun | .noFurtherExprs => rfl)
    (fun | .furtherExprs separates first further => ⟨_, ⟨_, _, separates, first⟩, further⟩)

/-- The token that comes next decides what a primary expression is. -/
theorem derives_primary_iff {token : Token} {expr : Expr} (found : c₀.next? = some token) :
    Derives levels (.primary expr) c₀ c₁ ↔
      match token.kind with
      | .identifier => ∃ arguments c, Step .identifier token c₀ c ∧
          Derives levels (.typeArguments arguments) c c₁ ∧
            expr = .ident token.text arguments token.position
      | .keyword .thisWord => Step (.keyword .thisWord) token c₀ c₁ ∧ expr = .self token.position
      | .integer => Step .integer token c₀ c₁ ∧ expr = .int token.text token.position
      | .real => Step .real token c₀ c₁ ∧ expr = .real token.text token.position
      | .boolean =>
        Step .boolean token c₀ c₁ ∧ expr = .bool (token.text = "true") token.position
      | .symbol .leftParen => ∃ c c' closing, Step (.symbol .leftParen) token c₀ c ∧
          Derives levels (.operand 1 expr) c c' ∧ Step (.symbol .rightParen) closing c' c₁
      | _ => False := by
  -- the first token of every production is the one that comes next, so its kind picks the case
  constructor
  · intro derived
    cases derived with
    | ident named applied =>
      obtain rfl := named.eq_of_next? found
      rw [named.kind_eq]
      exact ⟨_, _, named, applied, rfl⟩
    | self worded =>
      obtain rfl := worded.eq_of_next? found
      rw [worded.kind_eq]
      exact ⟨worded, rfl⟩
    | int written =>
      obtain rfl := written.eq_of_next? found
      rw [written.kind_eq]
      exact ⟨written, rfl⟩
    | real written =>
      obtain rfl := written.eq_of_next? found
      rw [written.kind_eq]
      exact ⟨written, rfl⟩
    | bool written =>
      obtain rfl := written.eq_of_next? found
      rw [written.kind_eq]
      exact ⟨written, rfl⟩
    | parens opens inner closes =>
      obtain rfl := opens.eq_of_next? found
      rw [opens.kind_eq]
      exact ⟨_, _, _, opens, inner, closes⟩
  · intro parts
    split at parts
    · obtain ⟨_, _, named, applied, rfl⟩ := parts
      exact .ident named applied
    · obtain ⟨worded, rfl⟩ := parts
      exact .self worded
    · obtain ⟨written, rfl⟩ := parts
      exact .int written
    · obtain ⟨written, rfl⟩ := parts
      exact .real written
    · obtain ⟨written, rfl⟩ := parts
      exact .bool written
    · obtain ⟨_, _, _, opens, inner, closes⟩ := parts
      exact .parens opens inner closes
    · exact parts.elim

section Expressions

variable (types : Matches type depth fun type => Derives levels (.type type))
  (exprs : Matches expr depth fun expr => Derives levels (.operand 1 expr))

include types exprs in
/-- A primary expression is read by its production. -/
theorem matches_primary :
    Matches (primary type expr) depth fun expr => Derives levels (.primary expr) := by
  intro cursor complete
  obtain ⟨token, rest, last, eq, well⟩ := exists_next complete
  have found : cursor.next? = some token := by
    rw [eq]
    rfl
  have fails : MatchesAt (failExpecting "expression" : Reading Expr) depth cursor fun _ _ => False :=
    matches_failExpecting "expression" cursor complete
  have literal : ∀ (kind : Kind), kind ≠ .endOfFile → ∀ written : Token → Expr,
      MatchesAt (do let literal ← expect kind; return written literal) depth cursor
        fun expr place => Step kind token cursor place ∧ expr = written token := by
    intro kind goes written
    refine MatchesAt.congr ((matches_expect kind goes).bind
      (fun literal => matches_pure (written literal)) cursor complete) fun expr place => ?_
    constructor
    · rintro ⟨literal, _, step, rfl, rfl⟩
      obtain rfl := step.eq_of_next? found
      exact ⟨step, rfl⟩
    · rintro ⟨step, rfl⟩
      exact ⟨token, place, step, rfl, rfl⟩
  refine .bind_look token.position (eq ▸ here_reader) (.bind_look token (eq ▸ peek_reader well) ?_)
  refine MatchesAt.congr ?_ fun expr place => (derives_primary_iff found).symm
  generalize token.kind = kind
  cases kind with
  | identifier =>
    refine MatchesAt.congr (matches_name_bind (fun name => (matches_typeArguments types).bind
      fun arguments => matches_pure (Expr.ident name.text arguments token.position)) cursor complete)
        fun expr place => ?_
    constructor
    · rintro ⟨name, c, named, arguments, _, applied, rfl, rfl⟩
      obtain rfl := named.eq_of_next? found
      exact ⟨arguments, c, named, applied, rfl⟩
    · rintro ⟨arguments, c, named, applied, rfl⟩
      exact ⟨token, c, named, arguments, place, applied, rfl, rfl⟩
  | integer => exact literal .integer nofun fun literal => .int literal.text token.position
  | real => exact literal .real nofun fun literal => .real literal.text token.position
  | boolean => exact literal .boolean nofun fun literal => .bool (literal.text = "true") token.position
  | keyword word =>
    cases word with
    | thisWord => exact literal (.keyword .thisWord) nofun fun _ => .self token.position
    | _ => exact fails
  | symbol sign =>
    cases sign with
    | leftParen =>
      refine MatchesAt.congr ((matches_expect (.symbol .leftParen) nofun).bind (fun _ =>
        exprs.bind fun inner => (matches_expect (.symbol .rightParen) nofun).bind fun _ =>
          matches_pure inner) cursor complete) fun expr place => ?_
      constructor
      · rintro ⟨opening, c, opens, _, c', inner, closing, _, closes, rfl, rfl⟩
        obtain rfl := opens.eq_of_next? found
        exact ⟨c, c', closing, opens, inner, closes⟩
      · rintro ⟨c, c', closing, opens, inner, closes⟩
        exact ⟨token, c, opens, expr, c', inner, closing, place, closes, rfl, rfl⟩
    | _ => exact fails
  | _ => exact fails

include exprs in
/-- The arguments of a call are read by their production. -/
theorem matches_callArguments :
    Matches (callArguments expr) depth fun arguments => Derives levels (.callArguments arguments) := by
  have starts : ∀ {expr c₀ c₁}, Derives levels (.operand 1 expr) c₀ c₁ →
      Starts (· ≠ .symbol .rightParen) c₀ c₁ := by
    intro expr c₀ c₁ derived
    exact derived.starts_operand.mono (by rintro _ starts rfl; cases starts)
  refine Matches.congr ((matches_expect (.symbol .leftParen) nofun).bind fun _ =>
    matches_listed (.symbol .comma) (.symbol .rightParen) exprs starts nofun nofun nofun)
      fun arguments c₀ c₁ => ?_
  constructor
  · rintro ⟨opening, c, opens, ⟨closing, rfl, closes⟩ | ⟨_, _, _, _, closing, rfl, first, further, closes⟩⟩
    · exact .noCallArguments opens closes
    · exact .callArguments opens first (repeated_exprs.mp further) closes
  · intro derived
    cases derived with
    | noCallArguments opens closes => exact ⟨_, _, opens, .inl ⟨_, rfl, closes⟩⟩
    | callArguments opens first further closes =>
      exact ⟨_, _, opens, .inr ⟨_, _, _, _, _, rfl, first, repeated_exprs.mpr further, closes⟩⟩

include exprs in
/-- The members and calls that continue an expression are read by their production, given that the
budget counts the tokens. -/
theorem matchesAt_suffixes (budget : Nat) (subject : Expr) (cursor : Cursor)
    (complete : Token.Complete cursor.tokens) (enough : cursor.tokens.length ≤ budget) :
    MatchesAt (suffixesWithin expr budget subject) depth cursor fun expr place =>
      Derives levels (.suffixes subject expr) cursor place := by
  induction budget generalizing subject cursor with
  | zero =>
    obtain ⟨token, rest, last, rfl, -⟩ := exists_next complete
    exact absurd enough (Nat.not_succ_le_zero _)
  | succ budget ih =>
    obtain ⟨token, rest, last, rfl, -⟩ := exists_next complete
    unfold suffixesWithin suffix?
    simp only [bind_assoc]
    -- every step takes up a token, so the budget still counts the tokens behind it
    have further : ∀ (subject : Expr) (place : Cursor),
        Starts (fun _ => True) ⟨token :: rest, last⟩ place →
          MatchesAt (suffixesWithin expr budget subject) depth place fun expr place' =>
            Derives levels (.suffixes subject expr) place place' := by
      intro subject place starts
      have shorter := starts.length_lt
      exact ih subject place (starts.passes.complete complete) (by omega)
    have opening : ∀ {arguments place},
        Derives levels (.callArguments arguments) ⟨token :: rest, last⟩ place →
          token.kind = .symbol .leftParen := by
      intro arguments place applied
      obtain ⟨_, _, _, opens, rfl, -⟩ := applied.starts_callArguments
      exact (step_cons.mp opens).1
    refine .bind_look (token.kind = .symbol .period : Bool) (check_reader _) ?_
    by_cases member : token.kind = .symbol .period
    · rw [if_pos (decide_eq_true member)]
      simp only [bind_assoc, pure_bind]
      refine MatchesAt.congr ((matches_expect (.symbol .period) nofun _ complete).bind
        fun point place pointed => matchesAt_name_bind (pointed.complete nofun complete)
          fun name place' named => further (.member subject name.text subject.position) place'
            (pointed.starts trivial nofun (named.passes nofun))) fun expr place => ?_
      constructor
      · rintro ⟨point, c₁, pointed, name, c₂, named, continues⟩
        exact .member pointed named continues
      · intro derived
        cases derived with
        | suffixesEnd noMember _ => exact absurd member (lacks_cons.mp noMember)
        | member pointed named continues => exact ⟨_, _, pointed, _, _, named, continues⟩
        | call _ applied _ => exact nomatch member.symm.trans (opening applied)
    · rw [if_neg (mt of_decide_eq_true member)]
      simp only [bind_assoc]
      refine .bind_look _ rfl (.bind_look (token.kind = .symbol .leftParen &&
        token.position.line = last.line : Bool) (check_reader _) ?_)
      by_cases opens : token.OpensOn last.line
      · rw [if_pos (by simpa [Token.OpensOn] using opens)]
        simp only [bind_assoc, pure_bind]
        refine MatchesAt.congr ((matches_callArguments exprs _ complete).bind
          fun arguments place applied => further (.call subject arguments subject.position) place
            (applied.starts_callArguments.mono fun _ _ => trivial)) fun expr place => ?_
        constructor
        · rintro ⟨arguments, c₁, applied, continues⟩
          exact .call ⟨token, rfl, opens.2⟩ applied continues
        · intro derived
          cases derived with
          | suffixesEnd _ noCall => exact absurd opens (lacks_cons.mp noCall)
          | member pointed _ _ => exact absurd (step_cons.mp pointed).1 member
          | call _ applied continues => exact ⟨_, _, applied, continues⟩
      · rw [if_neg (by simpa [Token.OpensOn] using opens), pure_bind]
        refine (matches_pure subject _ complete).congr fun expr place => ?_
        constructor
        · rintro ⟨rfl, rfl⟩
          exact .suffixesEnd (lacks_cons.mpr member) (lacks_cons.mpr opens)
        · intro derived
          cases derived with
          | suffixesEnd _ _ => exact ⟨rfl, rfl⟩
          | member pointed _ _ => exact absurd (step_cons.mp pointed).1 member
          | call sameLine applied _ =>
            obtain ⟨_, ⟨⟩, line⟩ := sameLine
            exact absurd ⟨opening applied, line⟩ opens

include types exprs in
/-- An expression without operators is read by its production. -/
theorem matches_postfixed :
    Matches (postfixed type expr) depth fun expr => Derives levels (.postfixed expr) := by
  have suffixed : ∀ subject, Matches (suffixes expr subject) depth fun expr =>
      Derives levels (.suffixes subject expr) := fun subject cursor complete =>
    .bind_look (cursor.reader depth) rfl
      (matchesAt_suffixes exprs _ subject cursor complete (Nat.le_refl _))
  refine ((matches_primary types exprs).bind suffixed).congr fun expr c₀ c₂ => ?_
  constructor
  · rintro ⟨subject, c₁, first, continues⟩
    exact .postfixed first continues
  · intro derived
    cases derived with | postfixed first continues
    exact ⟨_, _, first, continues⟩

end Expressions

/-! ## Operators -/

/-- The operator that comes next if it binds tightly enough, and its token. -/
def NextOperator (least : Nat) : Rule (Option (BinaryOp × Token))
  | some (op, sign), c₀, c₁ => Step (.symbol op.symbol) sign c₀ c₁ ∧ least ≤ op.precedence
  | none, c₀, c₁ => c₀.Lacks (Token.Binds least) ∧ c₁ = c₀

/-- The operator that comes next is read if it binds tightly enough. -/
theorem matches_operator? (least : Nat) : Matches (operator? least) depth (NextOperator least) := by
  intro cursor complete
  obtain ⟨token, rest, last, rfl, well⟩ := exists_next complete
  -- nothing is read if no operator comes next, or one that binds too loosely
  have stays (loose : ¬token.Binds least) :
      MatchesAt (pure none : Reading (Option (BinaryOp × Token))) depth ⟨token :: rest, last⟩
        fun found place => NextOperator least found ⟨token :: rest, last⟩ place := by
    refine .of_ok none ⟨token :: rest, last⟩ rfl .refl ?_
    rintro (_ | ⟨op, sign⟩) place
    · simp [NextOperator, loose]
    · simp only [NextOperator, step_cons, reduceCtorEq, false_and, iff_false]
      rintro ⟨⟨kind, -, -⟩, binds⟩
      exact loose ⟨op, by rw [kind, BinaryOp.ofKind?_symbol], binds⟩
  refine .bind_look token (peek_reader well) ?_
  cases known : BinaryOp.ofKind? token.kind with
  | none =>
    refine stays ?_
    rintro ⟨op, same, -⟩
    cases known.symm.trans same
  | some op =>
    by_cases binds : least ≤ op.precedence
    · have kind := BinaryOp.eq_of_ofKind? known
      have step : Step (.symbol op.symbol) token ⟨token :: rest, last⟩ ⟨rest, token.position⟩ := ⟨kind⟩
      have run : (do return some (op, ← take) : Reading (Option (BinaryOp × Token)))
          (reader ⟨token :: rest, last⟩ depth) =
            .ok (some (op, token)) (reader ⟨rest, token.position⟩ depth) :=
        bind_of_ok (take_cons well rest last depth)
      simp only [if_pos binds]
      refine .of_ok (some (op, token)) ⟨rest, token.position⟩ run (step.passes (by simp)) ?_
      rintro (_ | ⟨op', sign⟩) place
      · simp only [NextOperator, lacks_cons, reduceCtorEq, false_and, iff_false]
        rintro ⟨loose, -⟩
        exact loose ⟨op, known, binds⟩
      · constructor
        · rintro ⟨step', -⟩
          obtain ⟨kind', rfl, rfl⟩ := step_cons.mp step'
          rw [kind', BinaryOp.ofKind?_symbol, Option.some_inj] at known
          exact ⟨by rw [known], rfl⟩
        · rintro ⟨⟨⟩, rfl⟩
          exact ⟨step, binds⟩
    · simp only [if_neg binds]
      refine stays ?_
      rintro ⟨op', same, binds'⟩
      obtain rfl := Option.some_inj.mp (known.symm.trans same)
      exact binds binds'

/-- An operator is checked to be followed by an operand on its line. -/
theorem matches_checkOperand (sign : Token) :
    Matches (checkOperand sign) depth fun _ c₀ c₁ =>
      (∃ token, c₀.next? = some token ∧ startsOperand token.kind = true ∧
        token.position.line = sign.position.line) ∧ c₁ = c₀ := by
  intro cursor complete
  obtain ⟨token, rest, last, rfl, well⟩ := exists_next complete
  refine .bind_look token (peek_reader well) ?_
  by_cases fits : startsOperand token.kind = true ∧ token.position.line = sign.position.line
  · rw [if_pos (by simpa using fits)]
    refine (matches_pure () _ complete).congr fun _ place => ?_
    simp [fits]
  · rw [if_neg (by simpa using fits)]
    refine .of_error rfl fun _ place => ?_
    rintro ⟨⟨_, ⟨⟩, fits'⟩, -⟩
    exact fits fits'

end Grammar

end ClassLang
