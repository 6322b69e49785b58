import ClassLang.Proofs.Grammar.Correspondence
import ClassLang.Proofs.Grammar.Lookahead

/-! # What readings take up

The grammar takes up tokens that are part of programs, and looks no further than behind them. A program
is read up to the end of a text, so a text that is read has no malformed token and spells the program
by the grammar. -/

namespace ClassLang

open Reading List

namespace Grammar

variable {type : Reading TypeRef} {expr : Reading Expr} {statement : Reading Stmt} {reader : Reader}

/-! ## Expressions -/

theorem advances_name : Advances name := (advances_expect rfl).bind_pure

theorem takesUp_typeArguments (types : type.TakesUp) : TakesUp (typeArguments type) :=
  ((types.closed rfl rfl).optional rfl).bind_pure

theorem takesUp_typeBody (types : type.TakesUp) : TakesUp (typeBody type) :=
  advances_name.takesUp.bind fun _ => (takesUp_typeArguments types).bind_pure

/-- An expression without operators, members and calls. -/
theorem advances_primary (types : type.TakesUp) (exprs : expr.TakesUp) :
    Advances (primary type expr) := by
  refine takesUp_here.bind_advances fun position => takesUp_peek.bind_advances fun token => ?_
  split
  · exact advances_name.bind fun _ => (takesUp_typeArguments types).bind_pure
  · exact (advances_expect rfl).bind_pure
  · exact (advances_expect rfl).bind_pure
  · exact (advances_expect rfl).bind_pure
  · exact (advances_expect rfl).bind_pure
  · exact (advances_expect rfl).bind fun _ => exprs.bind fun _ => (takesUp_expect rfl).bind_pure
  · exact advances_failExpecting _

theorem suffix?_of_nil (expr : Reading Expr) (subject : Expr) (ended : reader.tokens = []) :
    suffix? expr subject reader = .ok none reader := by
  obtain ⟨tokens, last, depth⟩ := reader
  subst ended
  rfl

/-- A budget for all tokens is enough for one more member or call. -/
theorem suffixesWithin_eq (expr : Reading Expr) (subject : Expr) {budget : Nat}
    (enough : reader.tokens.length ≤ budget) :
    suffixesWithin expr budget subject reader =
      (do
        match ← suffix? expr subject with
        | some longer => suffixesWithin expr (budget - 1) longer
        | none => return subject : Reading Expr) reader := by
  cases budget with
  | succ budget => rfl
  | zero =>
    have ended := eq_nil_of_length_eq_zero (Nat.le_zero.mp enough)
    rw [bind_of_ok (suffix?_of_nil expr subject ended)]
    rfl

section Suffixes

variable (exprs : expr.TakesUp)

include exprs

theorem advances_callArguments : Advances (callArguments expr) :=
  (advances_expect rfl).bind fun _ => exprs.listed rfl rfl

/-- A member or a call. -/
theorem takesUp_suffix? (subject : Expr) : TakesUp (suffix? expr subject) := by
  refine (takesUp_check _).bind fun period => ?_
  split
  · exact (takesUp_expect rfl).bind fun _ => advances_name.takesUp.bind_pure
  · refine .of_get (fun reader => (takesUp_check _).bind fun call => ?_) fun _ _ => rfl
    split
    · exact (advances_callArguments exprs).takesUp.bind_pure
    · exact takesUp_pure _

/-- A member or a call has a token. -/
theorem length_lt_of_suffix? {subject longer : Expr} {after : Reader}
    (run : suffix? expr subject reader = .ok (some longer) after) :
    after.tokens.length < reader.tokens.length := by
  rw [suffix?, checkKind, bind_of_ok (check_eq_ok _ reader)] at run
  split at run
  · exact ((advances_expect rfl).bind fun _ => advances_name.takesUp.bind_pure).length_lt run
  · obtain ⟨_, _, ⟨⟩, run⟩ := bind_eq_ok.mp run
    rw [bind_of_ok (check_eq_ok _ reader)] at run
    split at run
    · exact (advances_callArguments exprs).bind_pure.length_lt run
    · cases run

/-- A budget for all tokens is as good as any other. -/
theorem suffixesWithin_congr (subject : Expr) {budget budget' : Nat}
    (enough : reader.tokens.length ≤ budget) (enough' : reader.tokens.length ≤ budget') :
    suffixesWithin expr budget subject reader = suffixesWithin expr budget' subject reader := by
  induction length : reader.tokens.length using Nat.strongRecOn
    generalizing reader subject budget budget' with
  | ind length ih =>
    rw [suffixesWithin_eq expr subject enough, suffixesWithin_eq expr subject enough']
    refine bind_congr_at fun found between run => ?_
    cases found with
    | none => rfl
    | some longer =>
      have fewer := length_lt_of_suffix? exprs run
      exact ih between.tokens.length (length ▸ fewer) longer (by omega) (by omega) rfl

/-- The members and calls that follow an expression are one and those that follow it. -/
theorem suffixes_eq (subject : Expr) :
    suffixes expr subject = do
      match ← suffix? expr subject with
      | some longer => suffixes expr longer
      | none => return subject := by
  funext reader
  refine (suffixesWithin_eq expr subject (Nat.le_refl _)).trans ?_
  refine bind_congr_at fun found between run => ?_
  cases found with
  | none => rfl
  | some longer =>
    have fewer := length_lt_of_suffix? exprs run
    exact suffixesWithin_congr exprs longer (Nat.le_sub_one_of_lt fewer) (Nat.le_refl _)

/-- The members and calls that follow an expression. -/
theorem takesUp_suffixes (subject : Expr) : TakesUp (suffixes expr subject) := by
  intro behind reader
  -- every member and every call takes up a token
  induction length : reader.tokens.length using Nat.strongRecOn
    generalizing behind reader subject with
  | ind length ih =>
    rw [suffixes_eq exprs]
    obtain ⟨taken, first⟩ := takesUp_suffix? exprs subject behind reader
    refine exists_takes_bind first fun found between run => ?_
    cases found with
    | none => exact takesUp_pure _ _ between
    | some longer =>
      exact ih between.tokens.length (length ▸ length_lt_of_suffix? exprs run) longer _ between
        rfl

end Suffixes

theorem advances_postfixed (types : type.TakesUp) (exprs : expr.TakesUp) :
    Advances (postfixed type expr) :=
  (advances_primary types exprs).bind (takesUp_suffixes exprs)

/-! ## Operators -/

/-- The operator that comes next is taken up in a step. -/
theorem operator?_eq_stepping (least : Nat) :
    operator? least = stepping fun next last => (wellFormed? next last).bind fun token =>
      match BinaryOp.ofKind? token.kind with
      | some op => if least ≤ op.precedence then .ok (some (op, token), true) else .ok (none, false)
      | none => .ok (none, false) := by
  refine peek_bind_eq_stepping fun token rest last depth well => ?_
  cases BinaryOp.ofKind? token.kind with
  | none => rfl
  | some op =>
    dsimp only
    split
    · rw [bind_of_ok (take_cons well rest last depth)]
      rfl
    · rfl

/-- The check of an operand is a step. -/
theorem checkOperand_eq_stepping (operator : Token) :
    checkOperand operator = stepping fun next last => (wellFormed? next last).bind fun next =>
      if startsOperand next.kind && next.position.line = operator.position.line then .ok ((), false)
      else .error ⟨.incompleteBinary operator.text, operator.position⟩ := by
  refine peek_bind_eq_stepping fun token rest last depth well => ?_
  split <;> rfl

theorem isUsed_of_ofKind? {kind : Kind} {op : BinaryOp} (isOp : BinaryOp.ofKind? kind = some op) :
    kind.isUsed = true := by
  rw [BinaryOp.eq_of_ofKind? isOp]
  cases op <;> rfl

/-- The operator that comes next. -/
theorem takesUp_operator? (least : Nat) : TakesUp (operator? least) := by
  rw [operator?_eq_stepping]
  refine fun behind => exists_takes_wellFormed (fun token value found => ?_)
    fun token fault refused => ?_
  · split at found
    · next isOp => exact isUsed_of_ofKind? isOp
    · cases found
  · split at refused
    · split at refused <;> cases refused
    · cases refused

/-- The next token is an operator that binds tightly enough and is read, or it is not and stays. -/
theorem operator?_eq_ok {least : Nat} {found : Option (BinaryOp × Token)} {after : Reader}
    (run : (operator? least : Reading _) reader = .ok found after) :
    ∃ token rest, reader.tokens = token :: rest ∧ token.kind ≠ .malformed ∧
      (found = none ∧ ¬token.Binds least ∧ after = reader ∨
        ∃ op, found = some (op, token) ∧ BinaryOp.ofKind? token.kind = some op ∧
          least ≤ op.precedence ∧ after = ⟨rest, token.position, reader.depth⟩) := by
  obtain ⟨tokens, last, depth⟩ := reader
  cases tokens with
  | nil => cases run
  | cons next rest =>
    by_cases bad : next.kind = .malformed
    · rw [operator?, bind_of_error (peek_malformed bad rest last depth)] at run
      cases run
    · rw [operator?, bind_of_ok (peek_cons bad rest last depth)] at run
      refine ⟨next, rest, rfl, bad, ?_⟩
      cases isOp : BinaryOp.ofKind? next.kind with
      | none =>
        rw [isOp] at run
        cases run
        exact .inl ⟨rfl, by simp [Token.Binds, isOp], rfl⟩
      | some op =>
        rw [isOp] at run
        dsimp only at run
        split at run
        · next binds =>
            rw [bind_of_ok (take_cons bad rest last depth)] at run
            cases run
            exact .inr ⟨op, rfl, rfl, binds, rfl⟩
        · next loose =>
            cases run
            exact .inl ⟨rfl, by simpa [Token.Binds, isOp] using loose, rfl⟩

/-- The check of the operand of an operator that was just taken up. -/
theorem exists_takes_checkOperand {operator : Token}
    (isOp : (BinaryOp.ofKind? operator.kind).isSome = true) (reader : Reader) :
    ∃ taken, Takes (checkOperand operator) (some operator) reader taken := by
  rw [checkOperand_eq_stepping]
  refine exists_takes_wellFormed (fun token value found => ?_) (fun token fault refused => ?_) reader
  · split at found <;> cases found
  · split at refused
    · cases refused
    · next missing =>
        cases refused
        refine ⟨operator, token, rfl, rfl, isOp, rfl, rfl, ?_⟩
        simpa using missing

/-! ## Statements -/

theorem advances_binding (exprs : expr.TakesUp) : Advances (binding expr) :=
  (advances_expect rfl).bind fun _ => advances_name.takesUp.bind fun _ =>
    (takesUp_expect rfl).bind fun _ => exprs.bind_pure

/-- A statement without the semicolon that may follow it. -/
theorem advances_statementBody (exprs : expr.Advances) (stmts : statement.Advances) :
    Advances (statementBody expr statement) := by
  refine takesUp_here.bind_advances fun position => takesUp_peek.bind_advances fun token => ?_
  split
  · exact (advances_binding exprs.takesUp).bind_pure
  · exact (advances_expect rfl).bind fun _ => exprs.takesUp.bind fun _ =>
      (takesUp_expect rfl).bind fun _ => (stmts.manyUntil _).bind fun _ =>
        ((stmts.manyUntil _).optional rfl).bind fun _ => (takesUp_expect rfl).bind_pure
  · exact (advances_expect rfl).bind fun _ => exprs.takesUp.bind fun _ =>
      (takesUp_expect rfl).bind fun _ => (stmts.manyUntil _).bind fun _ =>
        (takesUp_expect rfl).bind_pure
  · exact (advances_expect rfl).bind fun _ => exprs.takesUp.bind_pure
  · exact (advances_expect rfl).bind_pure
  · refine exprs.bind fun target => (takesUp_takeIf rfl).bind fun sign => ?_
    split
    · exact exprs.takesUp.bind_pure
    · exact takesUp_pure _

/-! ## Levels -/

/-- Whether all readings of a grammar take up tokens of a program only, and look no further than
behind them. -/
structure TakesUp (grammar : Grammar Reading) : Prop where
  type : grammar.type.TakesUp
  operand (least : Nat) : (grammar.operand least).Advances
  binary (least : Nat) : (grammar.binary least).Advances
  chain (least : Nat) (left : Expr) : (grammar.chain least left).TakesUp
  statement : grammar.statement.Advances

/-- The operators and operands that continue an expression. -/
theorem TakesUp.chainBody {inner : Grammar Reading} (takes : inner.TakesUp) (least : Nat) (left : Expr) :
    Reading.TakesUp (chainBody inner least left) := by
  intro behind reader
  obtain ⟨taken, first⟩ := takesUp_operator? least behind reader
  refine exists_takes_bind first fun next between run => ?_
  split
  · exact takesUp_pure _ _ between
  · next op token =>
      obtain ⟨_, rest, tokens_eq, -, ⟨⟨⟩, -⟩ | ⟨_, ⟨⟩, isOp, -, rfl⟩⟩ := operator?_eq_ok run
      -- the operator is the last token taken up when its operand is checked
      obtain rfl : [token] = taken := by
        have eq := first.tokens_eq
        rw [tokens_eq, after_of_ok run] at eq
        exact append_cancel_right eq
      obtain ⟨checked, check⟩ := exists_takes_checkOperand (Option.isSome_of_eq_some isOp)
        ⟨rest, token.position, reader.depth⟩
      have following := takesUp_deepen.bind fun _ =>
        (takes.operand (op.precedence + 1)).takesUp.bind fun right =>
          takes.chain least (.binary op left right left.position)
      exact exists_takes_bind check fun _ between _ => following _ between

/-- Beyond the deepest level nothing is taken up. -/
theorem takesUp_beyond : beyond.TakesUp where
  type := takesUp_tooDeep
  operand _ := advances_tooDeep
  binary _ := advances_tooDeep
  chain _ _ := takesUp_tooDeep
  statement := advances_tooDeep

/-- A grammar looks no further than behind what it takes up if the grammar of the next depth does
not. -/
theorem TakesUp.around {inner : Grammar Reading} (takes : inner.TakesUp) : inner.around.TakesUp where
  type := (takesUp_typeBody takes.type).nested
  operand least := (takes.binary least).nested
  binary least := by
    have operands := advances_postfixed (takesUp_typeBody takes.type).nested
      (takes.binary 1).nested.takesUp
    exact (operands.bind fun _ => takes.chainBody least _).restoringDepth
  chain least left := takes.chainBody least left
  statement := (advances_statementBody (takes.operand 1) takes.statement).nested.bind fun _ =>
    (takesUp_skipIf rfl).bind_pure

/-- The grammar looks no further than behind what it takes up, at every level. -/
theorem takesUp_ofLevels (levels : Nat) : (ofLevels levels).TakesUp := by
  induction levels with
  | zero => exact takesUp_beyond
  | succ levels ih => exact ih.around

/-! ## Declarations -/

section Declarations

variable {grammar : Grammar Reading} (takes : grammar.TakesUp)

include takes

/-- A method. -/
theorem advances_method : Advances grammar.method := by
  have param : Reading.TakesUp grammar.param :=
    advances_name.takesUp.bind fun _ => (takesUp_expect rfl).bind fun _ => takes.type.bind_pure
  exact (advances_expect rfl).bind fun _ => advances_name.takesUp.bind fun _ =>
    ((param.listed rfl rfl).optional rfl).bind fun _ => (takes.type.optional rfl).bind fun _ =>
      (takesUp_expect rfl).bind fun _ => (takes.statement.manyUntil _).bind fun _ =>
        (takesUp_expect rfl).bind_pure

/-- A field or a method. -/
theorem advances_member : Advances grammar.member := by
  have last (member : Member) : Reading.TakesUp (do skipIf (.symbol .semicolon); return member) :=
    (takesUp_skipIf rfl).bind_pure
  refine takesUp_peek.bind_advances fun token => ?_
  dsimp only
  split
  · exact (advances_binding (takes.operand 1).takesUp).map.bind last
  · exact (advances_method takes).map.bind last
  · exact Advances.bind (advances_failExpecting _) last

/-- A class. -/
theorem advances_classDecl : Advances grammar.classDecl := by
  have initBlock : Reading.TakesUp grammar.initBlock :=
    (takesUp_expect rfl).bind fun _ => (takes.statement.manyUntil _).bind fun _ =>
      (takesUp_expect rfl).bind fun _ => (takesUp_skipIf rfl).bind_pure
  exact (advances_expect rfl).bind fun _ => advances_name.takesUp.bind fun _ =>
    (advances_name.bind_pure.takesUp.optional rfl).bind fun _ => (takesUp_expect rfl).bind fun _ =>
      (initBlock.optional rfl).bind fun _ => ((advances_member takes).manyUntil _).bind fun _ =>
        (takesUp_expect rfl).bind fun _ => (takesUp_skipIf rfl).bind_pure

end Declarations

end Grammar

/-! ## Texts that are read -/

/-- The end of a text comes last among the tokens that are left and only there. -/
theorem Scanner.exists_tokens_eq (scanner : Scanner) :
    ∃ (body : List Token) (ending : Token), scanner.tokens = body ++ [ending] ∧
      ending.kind = .endOfFile ∧ ∀ token ∈ body, token.kind ≠ .endOfFile := by
  induction scanner using Scanner.tokens.induct with
  | case1 scanner step ended =>
    refine ⟨[], scanner.next.1, ?_, ended, forall_mem_nil _⟩
    rw [tokens]
    exact if_pos ended
  | case2 scanner step more ih =>
    obtain ⟨body, ending, eq, isEnd, others⟩ := ih
    refine ⟨scanner.next.1 :: body, ending, ?_, isEnd, forall_mem_cons.mpr ⟨more, others⟩⟩
    rw [tokens]
    exact (if_neg more).trans (congrArg _ eq)

/-- The end of a text comes last among its tokens and only there. -/
theorem Token.exists_scan_eq (text : String) :
    ∃ (body : List Token) (ending : Token), Token.scan text = body ++ [ending] ∧
      ending.kind = .endOfFile ∧ ∀ token ∈ body, token.kind ≠ .endOfFile :=
  (Scanner.ofText text).exists_tokens_eq

/-- A text is complete if none of its tokens is malformed. -/
theorem Token.complete_scan {text : String}
    (well : ∀ token ∈ Token.scan text, token.kind ≠ .malformed) :
    Token.Complete (Token.scan text) := by
  obtain ⟨body, ending, scanned, isEnd, others⟩ := Token.exists_scan_eq text
  rw [scanned] at well ⊢
  exact ⟨body, ending, rfl, isEnd, fun token mem =>
    ⟨well token (mem_append_left _ mem), others token mem⟩⟩

/-- Tokens up to an end of the text are all tokens up to its only end. -/
theorem Token.complete_of_taken {body taken rest : List Token} {ending token : Token}
    (eq : body ++ [ending] = taken ++ token :: rest)
    (used : ∀ token ∈ taken, token.kind.isUsed = true) (isEnd : ending.kind = .endOfFile)
    (others : ∀ token ∈ body, token.kind ≠ .endOfFile) (reached : token.kind = .endOfFile) :
    Token.Complete (body ++ [ending]) := by
  refine ⟨body, ending, rfl, isEnd, fun other found => ⟨?_, others other found⟩⟩
  refine Kind.ne_malformed_of_isUsed (used other ?_)
  rcases append_eq_append_iff.mp eq with ⟨further, rfl, -⟩ | ⟨further, rfl, eq'⟩
  · exact mem_append_left _ found
  · cases further with
    | nil => rwa [append_nil] at found
    | cons first further =>
      obtain ⟨rfl, -⟩ := cons.inj eq'
      exact absurd reached (others token (mem_append_right _ mem_cons_self))

namespace Program

variable {text : String} {program : Program}

/-- The tokens of a program are read up to an end of the text. -/
theorem exists_tokens_eq_of_ofTokens {tokens : List Token} (read : ofTokens tokens = .ok program) :
    ∃ (taken : List Token) (ending : Token) (rest : List Token), tokens = taken ++ ending :: rest ∧
      ending.kind = .endOfFile ∧ ∀ token ∈ taken, token.kind.isUsed = true := by
  obtain ⟨after, run⟩ := ofTokens_eq_ok.mp read
  obtain ⟨classes, between, run, run'⟩ := bind_eq_ok.mp run
  obtain ⟨ending, _, run', -⟩ := bind_eq_ok.mp run'
  obtain ⟨rest, tokens_eq, isEnd, -⟩ := exists_tokens_eq_of_expect run'
  have advances := Grammar.advances_classDecl (Grammar.takesUp_ofLevels (maxDepth + 1))
  obtain ⟨taken, takes⟩ := advances.manyUntil (· = .endOfFile) none (Reader.ofTokens tokens)
  refine ⟨taken, ending, rest, ?_, isEnd, takes.used⟩
  rw [← tokens_eq, ← after_of_ok run]
  exact takes.tokens_eq

/-- A text that is read as a program is complete. -/
theorem complete_of_ofText (read : ofText text = .ok program) :
    Token.Complete (Token.scan text) := by
  obtain ⟨taken, token, rest, eq, reached, used⟩ := exists_tokens_eq_of_ofTokens read
  obtain ⟨body, ending, scanned, isEnd, others⟩ := Token.exists_scan_eq text
  rw [scanned] at eq ⊢
  exact Token.complete_of_taken eq used isEnd others reached

/-- The classes of a program are read up to the end of a text by their productions. -/
theorem matches_classes : Matches (manyUntil (· = .endOfFile) Grammar.outermost.classDecl) 0
    fun decls c₀ c₁ => Derives maxDepth (.classes decls) c₀ c₁ ∧ c₁.NextEnds (· = .endOfFile) := by
  have follows : Grammar.outermost.Follows maxDepth 0 :=
    Grammar.follows_ofLevels maxDepth 0 (Nat.zero_add maxDepth)
  refine (matches_manyUntil (Grammar.matches_classDecl follows) fun derived => ?_).congr
    fun decls c₀ c₁ => and_congr_left fun _ => Grammar.repeated_classes
  exact derived.starts_classDecl.mono (by rintro _ rfl; rfl)

/-- A text that is read as a program spells its classes by the grammar, with no more levels of nesting
than the limit. -/
theorem derives_of_ofText (read : ofText text = .ok program) :
    ∃ place, Derives maxDepth (.classes program.classes) ⟨Token.scan text, Position.start⟩ place := by
  have classes := matches_classes ⟨Token.scan text, Position.start⟩ (complete_of_ofText read)
  obtain ⟨after, run⟩ := ofTokens_eq_ok.mp read
  obtain ⟨decls, between, run, run'⟩ := bind_eq_ok.mp run
  obtain ⟨place, ⟨derived, -⟩, -⟩ := classes.ok_iff.mp run
  obtain ⟨_, _, -, ⟨⟩⟩ := bind_eq_ok.mp run'
  exact ⟨place, derived⟩

/-- Complete tokens are read as the classes that they spell before the end of the text. -/
theorem ofTokens_of_derives {tokens : List Token} {decls : List ClassDecl} {ending : Token}
    {last : Position} (complete : Token.Complete tokens)
    (derived : Derives maxDepth (.classes decls) ⟨tokens, Position.start⟩ ⟨[ending], last⟩)
    (ends : ending.kind = .endOfFile) : ofTokens tokens = .ok ⟨decls⟩ := by
  have classes := matches_classes ⟨tokens, Position.start⟩ complete
  have run := classes.ok_iff.mpr ⟨_, ⟨derived, ending, rfl, decide_eq_true ends⟩, rfl⟩
  have well : ending.kind ≠ .malformed := by
    rw [ends]
    nofun
  have run' := expect_cons well [] last 0
  rw [ends] at run'
  exact ofTokens_eq_ok.mpr ⟨_, bind_eq_ok.mpr ⟨_, _, run, bind_eq_ok.mpr ⟨_, _, run', rfl⟩⟩⟩

end Program

end ClassLang
