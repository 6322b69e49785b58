import ClassLang.Proofs.Grammar.Alignment
import ClassLang.Proofs.Grammar.Failure
import ClassLang.Proofs.Printing.Layout

/-! # What layout decides

Lists of tokens of the same kinds and texts are read alike if the same tokens stand on the line of the
token before them: as programs that differ in positions only, or with the same fault at tokens of the
same index. Lines are compared nowhere but at calls and at operands, and there with the token before. -/

namespace ClassLang

open Reading ClassLang.Expr List

namespace Grammar

variable {places : Position → Position → Prop} {type : Reading TypeRef} {expr : Reading Expr}
  {statement : Reading Stmt}

/-! ## Expressions -/

theorem alike_name : Alike places Prod.fst name name := (alike_expect _).bind_pure id

section Types

variable (types : Alike places TypeRef.erase type type)

include types

theorem alike_typeArguments :
    Alike places (map TypeRef.erase) (typeArguments type) (typeArguments type) :=
  ((types.closed _ _).optional _).bind_pure map_getD_nil

theorem alike_typeBody : Alike places TypeRef.erase (typeBody type) (typeBody type) := by
  refine alike_name.bind fun named => (alike_typeArguments types).bind_pure fun applied => ?_
  simp only [TypeRef.erase, TypeRef.eraseList_eq_map, named, applied]

/-- An expression without operators, members and calls. -/
theorem alike_primary (exprs : Alike places erase expr expr) :
    Alike places erase (primary type expr) (primary type expr) := by
  refine alike_here.bind fun _ => alike_peek.bind fun same => ?_
  dsimp only
  rw [same]
  split
  · refine alike_name.bind fun named => (alike_typeArguments types).bind_pure fun applied => ?_
    simp only [erase, TypeRef.eraseList_eq_map, named, applied]
  · exact (alike_expect _).bind_pure fun _ => rfl
  · exact (alike_expect _).bind_pure fun text => by simp only [erase, text]
  · exact (alike_expect _).bind_pure fun text => by simp only [erase, text]
  · exact (alike_expect _).bind_pure fun text => by simp only [erase, text]
  · exact (alike_expect _).bind fun _ => exprs.bind fun inner => (alike_expect _).bind_pure
      fun _ => inner
  · exact alike_failExpecting _

end Types

theorem alike_callArguments (exprs : Alike places erase expr expr) :
    Alike places (map erase) (callArguments expr) (callArguments expr) :=
  (alike_expect _).bind fun _ => exprs.listed _ _

/-- Whether a parenthesis opens a call does not depend on lines but through the token before it. -/
theorem alike_check_call :
    Alike places id
      (do
        let line := (← get).last.line
        check fun token => token.kind = .symbol .leftParen && token.position.line = line)
      (do
        let line := (← get).last.line
        check fun token => token.kind = .symbol .leftParen && token.position.line = line) := by
  intro reader reader' alike
  refine endsAlike_check alike fun like => ?_
  rw [like.kind, decide_eq_decide.mpr like.line]

/-- A member or a call. -/
theorem alike_suffix? (exprs : Alike places erase expr expr) {subject subject' : Expr}
    (same : subject.erase = subject'.erase) :
    Alike places (Option.map erase) (suffix? expr subject) (suffix? expr subject') := by
  refine (alike_check (· = .symbol .period)).ite ?_ ?_
  · refine (alike_expect _).bind fun _ => alike_name.bind_pure fun named => ?_
    simp only [Option.map_some, erase, same, named]
  · dsimp only
    rw [← bind_assoc, ← bind_assoc]
    refine alike_check_call.ite ?_ (alike_pure rfl)
    refine (alike_callArguments exprs).bind_pure fun applied => ?_
    simp only [Option.map_some, erase, eraseList_eq_map, same, applied]

/-- The members and calls that follow an expression. -/
theorem alike_suffixes (exprs : Alike places erase expr expr) (budget : Nat)
    {subject subject' : Expr} (same : subject.erase = subject'.erase) :
    Alike places erase (suffixesWithin expr budget subject) (suffixesWithin expr budget subject') := by
  induction budget generalizing subject subject' with
  | zero => exact alike_pure same
  | succ budget ih =>
    refine (alike_suffix? exprs same).bind fun {longer longer'} found => ?_
    cases longer with
    | none =>
      cases longer' with
      | none => exact alike_pure same
      | some longer' => cases found
    | some longer =>
      cases longer' with
      | none => cases found
      | some longer' => exact ih (Option.some.inj found)

/-- An expression without operators. -/
theorem alike_postfixed (types : Alike places TypeRef.erase type type)
    (exprs : Alike places erase expr expr) :
    Alike places erase (postfixed type expr) (postfixed type expr) := by
  refine (alike_primary types exprs).bind fun {subject subject'} same => ?_
  intro reader reader' alike
  -- as many tokens are left, so both budgets are the same
  have budgets : reader.tokens.length = reader'.tokens.length := alike.tokens.length_eq
  change EndsAlike places erase (suffixesWithin expr reader.tokens.length subject reader)
    (suffixesWithin expr reader'.tokens.length subject' reader')
  rw [← budgets]
  exact alike_suffixes exprs _ same _ _ alike

/-! ## Operators -/

/-- The operator that comes next. -/
theorem alike_operator? (least : Nat) :
    Alike places (Option.map fun found => (found.1, found.2.text)) (operator? least)
      (operator? least) := by
  rw [operator?_eq_stepping]
  refine fun _ _ alike => endsAlike_wellFormed alike fun {token token'} like => ?_
  rw [like.kind]
  cases BinaryOp.ofKind? token'.kind with
  | none => exact .ok rfl
  | some op =>
    dsimp only
    split
    · refine .ok ?_
      rw [Option.map_some, Option.map_some, like.text]
    · exact .ok rfl

/-- The check of an operand does not depend on lines but through the operator, if that was the last
token read. -/
theorem endsAlike_checkOperand {operator operator' : Token} {reader reader' : Reader}
    (text : operator.text = operator'.text) (last : reader.last = operator.position)
    (last' : reader'.last = operator'.position) (alike : reader.Alike places reader') :
    EndsAlike places id ((checkOperand operator : Reading _) reader)
      ((checkOperand operator' : Reading _) reader') := by
  rw [checkOperand_eq_stepping, checkOperand_eq_stepping]
  refine endsAlike_wellFormed alike fun like => ?_
  rw [like.kind, text, ← last, ← last']
  simp only [like.line]
  split
  · exact .ok rfl
  · exact .error rfl alike.last

/-! ## Statements -/

theorem alike_binding (exprs : Alike places erase expr expr) :
    Alike places Field.erase (binding expr) (binding expr) := by
  refine (alike_expect _).bind fun _ => alike_name.bind fun named => (alike_expect _).bind fun _ =>
    exprs.bind_pure fun init => ?_
  simp only [Field.erase, named, init]

/-- A statement without the semicolon that may follow it. -/
theorem alike_statementBody (exprs : Alike places erase expr expr)
    (stmts : Alike places Stmt.erase statement statement) :
    Alike places Stmt.erase (statementBody expr statement) (statementBody expr statement) := by
  refine alike_here.bind fun _ => alike_peek.bind fun same => ?_
  rw [same]
  split
  · refine (alike_binding exprs).bind_pure fun same => ?_
    obtain ⟨named, init⟩ : _ ∧ _ ∧ _ := Field.mk.inj same
    simp only [Stmt.erase, named, init]
  · refine (alike_expect _).bind fun _ => exprs.bind fun test => (alike_expect _).bind fun _ =>
      (stmts.manyUntil _).bind fun body => ((stmts.manyUntil _).optional _).bind
        fun {alternative alternative'} other => (alike_expect _).bind_pure fun _ => ?_
    cases alternative <;> cases alternative' <;>
      simp_all [Stmt.erase, Stmt.eraseBlock_eq_map]
  · refine (alike_expect _).bind fun _ => exprs.bind fun test => (alike_expect _).bind fun _ =>
      (stmts.manyUntil _).bind fun body => (alike_expect _).bind_pure fun _ => ?_
    simp only [Stmt.erase, Stmt.eraseBlock_eq_map, test, body]
  · exact (alike_expect _).bind fun _ => exprs.bind_pure fun value => by
      simp only [Stmt.erase, value]
  · exact (alike_expect _).bind_pure fun _ => rfl
  · refine exprs.bind fun target => (alike_takeIf _).bind fun {sign sign'} same => ?_
    cases sign with
    | none =>
      cases sign' with
      | none => exact alike_pure (by simp only [Stmt.erase, target])
      | some sign' => cases same
    | some sign =>
      cases sign' with
      | none => cases same
      | some sign' => exact exprs.bind_pure fun value => by simp only [Stmt.erase, target, value]

/-! ## Levels -/

/-- Whether all readings of a grammar depend on positions as little as that. -/
structure ReadsAlike (places : Position → Position → Prop) (grammar : Grammar Reading) : Prop where
  type : Alike places TypeRef.erase grammar.type grammar.type
  operand (least : Nat) : Alike places erase (grammar.operand least) (grammar.operand least)
  binary (least : Nat) : Alike places erase (grammar.binary least) (grammar.binary least)
  /-- What continues expressions that differ in positions only is read alike. -/
  chain (least : Nat) {left left' : Expr} (same : left.erase = left'.erase) :
    Alike places erase (grammar.chain least left) (grammar.chain least left')
  statement : Alike places Stmt.erase grammar.statement grammar.statement

/-- The operators and operands that continue an expression. -/
theorem ReadsAlike.chainBody {inner : Grammar Reading} (alike : inner.ReadsAlike places) (least : Nat)
    {left left' : Expr} (same : left.erase = left'.erase) :
    Alike places erase (chainBody inner least left) (chainBody inner least left') := by
  intro reader reader' begun
  refine endsAlike_bind (alike_operator? least _ _ begun) fun {found found' _ _} run run' seen
    between => ?_
  cases found with
  | none =>
    cases found' with
    | none => exact .ok same between
    | some found' => cases seen
  | some found =>
    cases found' with
    | none => cases seen
    | some found' =>
      obtain ⟨op, token⟩ := found
      obtain ⟨op', token'⟩ := found'
      obtain ⟨rfl, text⟩ : op = op' ∧ token.text = token'.text := Prod.mk.inj (Option.some.inj seen)
      -- the operator is the last token read when its operand is checked
      obtain ⟨_, rest, -, -, ⟨⟨⟩, -⟩ | ⟨_, ⟨⟩, -, -, rfl⟩⟩ := operator?_eq_ok run
      obtain ⟨_, rest', -, -, ⟨⟨⟩, -⟩ | ⟨_, ⟨⟩, -, -, rfl⟩⟩ := operator?_eq_ok run'
      refine endsAlike_bind (endsAlike_checkOperand text rfl rfl between) fun _ _ _ checked => ?_
      refine (alike_deepen.bind fun _ => (alike.operand _).bind fun right =>
        alike.chain least ?_) _ _ checked
      simp only [erase, same, right]

/-- Beyond the deepest level everything fails. -/
theorem readsAlike_beyond : beyond.ReadsAlike places where
  type := alike_tooDeep
  operand _ := alike_tooDeep
  binary _ := alike_tooDeep
  chain _ _ _ _ := alike_tooDeep
  statement := alike_tooDeep

/-- A grammar reads alike if the grammar of the next depth does. -/
theorem ReadsAlike.around {inner : Grammar Reading} (alike : inner.ReadsAlike places) :
    inner.around.ReadsAlike places where
  type := (alike_typeBody alike.type).nested
  operand least := (alike.binary least).nested
  binary least := by
    have operands := alike_postfixed (alike_typeBody alike.type).nested (alike.binary 1).nested
    exact (operands.bind fun same => alike.chainBody least same).restoringDepth
  chain least _ _ same := alike.chainBody least same
  statement := (alike_statementBody (alike.operand 1) alike.statement).nested.bind fun same =>
    (alike_skipIf _).bind_pure fun _ => same

theorem readsAlike_ofLevels (levels : Nat) : (ofLevels levels).ReadsAlike places := by
  induction levels with
  | zero => exact readsAlike_beyond
  | succ levels ih => exact ih.around

/-! ## Declarations -/

section Declarations

variable {grammar : Grammar Reading} (alike : grammar.ReadsAlike places)

include alike

theorem alike_param : Alike places Param.erase grammar.param grammar.param := by
  refine alike_name.bind fun named => (alike_expect _).bind fun _ => alike.type.bind_pure
    fun type => ?_
  simp only [Param.erase, named, type]

theorem alike_statements : Alike places (map Stmt.erase) (statements grammar.statement)
    (statements grammar.statement) :=
  alike.statement.manyUntil _

/-- A method. -/
theorem alike_method : Alike places Method.erase grammar.method grammar.method := by
  refine (alike_expect _).bind fun _ => alike_name.bind fun named =>
    (((alike_param alike).listed _ _).optional _).bind fun params =>
      (alike.type.optional _).bind fun result => (alike_expect _).bind fun _ =>
        (alike_statements alike).bind fun body => (alike_expect _).bind_pure fun _ => ?_
  simp only [Method.erase, Stmt.eraseBlock_eq_map, named, map_getD_nil params, result, body]

/-- A field or a method. -/
theorem alike_member : Alike places Member.erase grammar.member grammar.member := by
  have last {member member' : Member} (same : member.erase = member'.erase) :
      Alike places Member.erase (do skipIf (.symbol .semicolon); return member)
        (do skipIf (.symbol .semicolon); return member') :=
    (alike_skipIf _).bind_pure fun _ => same
  refine alike_peek.bind fun same => ?_
  dsimp only
  rw [same]
  split
  · have field : Alike places Member.erase (Member.field <$> binding grammar.expr)
        (Member.field <$> binding grammar.expr) :=
      (alike_binding (alike.operand 1)).map fun same => congrArg Member.field same
    exact field.bind last
  · have method : Alike places Member.erase (Member.method <$> grammar.method)
        (Member.method <$> grammar.method) :=
      (alike_method alike).map fun same => congrArg Member.method same
    exact method.bind last
  · exact Alike.bind (alike_failExpecting _) last

/-- A class, from two readers on at which the word that begins it is read alike. -/
theorem endsAlike_classDecl {reader reader' : Reader}
    (begun : EndsAlike places Token.text ((expect (.keyword .classWord) : Reading _) reader)
      ((expect (.keyword .classWord) : Reading _) reader')) :
    EndsAlike places ClassDecl.erase (grammar.classDecl reader) (grammar.classDecl reader') := by
  have baseName : Alike places id (do return (← name).1) (do return (← name).1) :=
    alike_name.bind_pure id
  have initBlock : Alike places (map Stmt.erase) grammar.initBlock grammar.initBlock :=
    (alike_expect _).bind fun _ => (alike_statements alike).bind fun body =>
      (alike_expect _).bind fun _ => (alike_skipIf _).bind_pure fun _ => body
  refine endsAlike_bind begun fun _ _ _ between => ?_
  refine (alike_name.bind fun named => (baseName.optional _).bind fun base =>
    (alike_expect _).bind fun _ => (initBlock.optional _).bind fun init =>
      ((alike_member alike).manyUntil _).bind fun members => (alike_expect _).bind fun _ =>
        (alike_skipIf _).bind_pure fun _ => ?_) _ _ between
  simp only [Option.map_id, id_eq] at base
  simp only [ClassDecl.erase, Stmt.eraseBlock_eq_map, named, base, map_getD_nil init, members]

theorem alike_classDecl : Alike places ClassDecl.erase grammar.classDecl grammar.classDecl :=
  fun _ _ between => endsAlike_classDecl alike (alike_expect _ _ _ between)

end Declarations

/-! ## Programs -/

/-- A program. The position before the first token does not matter, since no line is compared with
it. -/
theorem endsAlike_program {before before' : Position} {token token' : Token}
    {rest rest' : List Token} (like : token.Alike places before before' token')
    (more : Token.Aligned places token.position token'.position rest rest') :
    EndsAlike places Program.erase ((outermost.program : Reading _) (Reader.ofTokens (token :: rest)))
      ((outermost.program : Reading _) (Reader.ofTokens (token' :: rest'))) := by
  have alike : outermost.ReadsAlike places := readsAlike_ofLevels (maxDepth + 1)
  have advances : Advances outermost.classDecl := advances_classDecl (takesUp_ofLevels (maxDepth + 1))
  have run := manyUntil_cons (· = .endOfFile) advances token rest Position.start 0
  have run' := manyUntil_cons (· = .endOfFile) advances token' rest' Position.start 0
  rw [← like.kind] at run'
  by_cases ended : token.kind = .endOfFile
  · -- no class is read, and the end of the text comes first
    rw [if_pos (decide_eq_true ended)] at run run'
    rw [program, Reader.ofTokens, Reader.ofTokens, bind_of_ok run, bind_of_ok run']
    exact endsAlike_bind (endsAlike_expect_cons _ like more) fun _ _ _ between => .ok rfl between
  · -- behind the word that begins the first class, the readers are alike
    rw [if_neg (mt of_decide_eq_true ended)] at run run'
    have classes : EndsAlike places (map ClassDecl.erase)
        ((manyUntil (· = .endOfFile) outermost.classDecl : Reading _)
          (Reader.ofTokens (token :: rest)))
        ((manyUntil (· = .endOfFile) outermost.classDecl : Reading _)
          (Reader.ofTokens (token' :: rest'))) := by
      rw [Reader.ofTokens, Reader.ofTokens, run, run']
      refine endsAlike_bind (endsAlike_classDecl alike (endsAlike_expect_cons _ like more))
        fun _ _ same between => ?_
      refine (((alike_classDecl alike).manyUntil _).bind_pure fun same' => ?_) _ _ between
      rw [map_cons, map_cons, same, same']
    refine endsAlike_bind classes fun _ _ same between => ?_
    refine ((alike_expect _).bind_pure fun _ => ?_) _ _ between
    rw [Program.erase, Program.erase, same]

end Grammar

/-! ## Lists of tokens -/

/-- For any two consecutive tokens, whether they stand on one line. -/
def Token.onOneLine (tokens : List Token) : List Bool :=
  tokens.zipWith (fun first second => first.position.line = second.position.line) tokens.tail

/-- Lists of tokens are laid out alike if they have the same kinds and texts in order, and consecutive
tokens stand on one line in the one exactly if they do in the other. -/
structure Token.SameLayout (tokens others : List Token) : Prop where
  words : tokens.map (fun token => (token.kind, token.text)) =
    others.map fun token => (token.kind, token.text)
  /-- The same consecutive tokens stand on one line. -/
  lines : Token.onOneLine tokens = Token.onOneLine others

/-- Whether lists of tokens are laid out alike can be computed. -/
instance (tokens others : List Token) : Decidable (Token.SameLayout tokens others) :=
  decidable_of_iff (_ ∧ _) ⟨fun same => ⟨same.1, same.2⟩, fun same => ⟨same.words, same.lines⟩⟩

/-- Positions are of one index if tokens of the same index stand there. -/
def Token.SameIndex (tokens others : List Token) (position position' : Position) : Prop :=
  ∃ (index : Nat) (token token' : Token), tokens[index]? = some token ∧
    others[index]? = some token' ∧ position = token.position ∧ position' = token'.position

/-- Lists that are laid out alike are aligned behind positions for which their first tokens are. -/
theorem Token.SameLayout.aligned {places : Position → Position → Prop} {token token' : Token}
    {rest rest' : List Token} {last last' : Position}
    (same : Token.SameLayout (token :: rest) (token' :: rest'))
    (corresponds : ∀ (index : Nat) (first first' : Token), (token :: rest)[index]? = some first →
      (token' :: rest')[index]? = some first' → places first.position first'.position)
    (line : token.position.line = last.line ↔ token'.position.line = last'.line) :
    Token.Aligned places last last' (token :: rest) (token' :: rest') := by
  induction rest generalizing token token' rest' last last' with
  | nil =>
    obtain ⟨word, words⟩ := cons.inj same.words
    obtain ⟨kind, text⟩ := Prod.mk.inj word
    obtain rfl : rest' = [] := map_eq_nil_iff.mp words.symm
    exact .cons ⟨kind, text, corresponds 0 token token' rfl rfl, line⟩ .nil
  | cons second more ih =>
    obtain ⟨word, words⟩ := cons.inj same.words
    obtain ⟨kind, text⟩ := Prod.mk.inj word
    cases rest' with
    | nil => cases words
    | cons second' more' =>
      obtain ⟨next, lines⟩ := cons.inj same.lines
      refine .cons ⟨kind, text, corresponds 0 token token' rfl rfl, line⟩
        (ih ⟨words, lines⟩ (fun index => corresponds (index + 1)) ?_)
      rw [eq_comm, decide_eq_decide.mp next, eq_comm]

namespace Program

/-- Layout matters only through the lines of consecutive tokens. Lists that are laid out alike are read
up to tokens of the same index, as programs that differ in positions only, or else with the same
complaint about tokens of the same index. -/
theorem ofTokens_of_sameLayout {tokens others : List Token}
    (same : Token.SameLayout tokens others) :
    consumed tokens = consumed others ∧
    match ofTokens tokens, ofTokens others with
    | .ok program, .ok program' => program.erase = program'.erase
    | .error fault, .error fault' =>
      fault.cause = fault'.cause ∧
        (Token.SameIndex tokens others fault.position fault'.position ∨
          tokens = [] ∧ others = [] ∧ fault.position = fault'.position)
    | _, _ => False := by
  cases tokens with
  | nil =>
    obtain rfl : others = [] := List.map_eq_nil_iff.mp same.words.symm
    exact ⟨rfl, rfl, .inr ⟨rfl, rfl, rfl⟩⟩
  | cons token rest =>
    cases others with
    | nil => cases same.words
    | cons token' rest' =>
      have aligned : Token.Aligned (Token.SameIndex (token :: rest) (token' :: rest'))
          token.position token'.position (token :: rest) (token' :: rest') :=
        same.aligned (fun index first first' found found' =>
          ⟨index, first, first', found, found', rfl, rfl⟩) (iff_of_true rfl rfl)
      have lengths := aligned.length_eq
      cases aligned with
      | cons like more =>
        have ends := Grammar.endsAlike_program like more
        unfold consumed Reading.after ofTokens
        generalize (Grammar.outermost.program : Reading _) (Reader.ofTokens (token :: rest)) =
          outcome at ends
        generalize (Grammar.outermost.program : Reading _) (Reader.ofTokens (token' :: rest')) =
          outcome' at ends
        cases ends with
        | ok same after => exact ⟨by rw [lengths, after.tokens.length_eq], same⟩
        | error cause position length =>
          exact ⟨by rw [lengths, length], cause, .inl position⟩

/-- A text whose lines are moved and indented is read as the same program but for positions. -/
theorem ofTokens_of_sameLayout_indented :
    let flat := "class A is\nvar x : f(1) + 2\nend"
    let indented := "class A  is\n\n    var x : f (1)  +  2\n\n  end"
    Token.SameLayout (Token.scan flat) (Token.scan indented) ∧
      ∃ program program', ofText flat = .ok program ∧ ofText indented = .ok program' ∧
        program.erase = program'.erase := by
  intro flat indented
  have same : Token.SameLayout (Token.scan flat) (Token.scan indented) := by decide +kernel
  have isRead : (ofTokens (Token.scan flat)).isOk = true := by decide +kernel
  have agree := (ofTokens_of_sameLayout same).2
  refine ⟨same, ?_⟩
  cases read : ofTokens (Token.scan flat) with
  | error fault =>
    rw [read] at isRead
    cases isRead
  | ok program =>
    cases read' : ofTokens (Token.scan indented) with
    | error fault =>
      rw [read, read'] at agree
      cases agree
    | ok program' =>
      rw [read, read'] at agree
      exact ⟨program, program', read, read', agree⟩

end Program

end ClassLang
