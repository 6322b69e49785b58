import ClassLang.Proofs.Printing.Operand

/-! # Reading statements back

Where there is room for the levels that are counted on a statement, its words are read as the
statement. Each statement starts a line, and no word that starts a later line continues it: the only
one that could is an opening parenthesis, and it calls what stands on its own line. -/

namespace ClassLang

open Reading Grammar Stmt Reads Word

/-! ## Counting levels -/

mutual

/-- How many levels the words of a statement enter below the level of the statement. -/
def Stmt.innerNesting : Stmt → Nat
  | .declare _ init _ => init.nesting
  | .assign target value _ => max target.nesting value.nesting
  | .branch test body none _ => max test.nesting (blockNesting body)
  | .branch test body (some alternative) _ =>
    max test.nesting (max (blockNesting body) (blockNesting alternative))
  | .loop test body _ => max test.nesting (blockNesting body)
  | .ret value _ => value.nesting
  | .leave _ => 0
  | .eval value _ => value.nesting

/-- How many levels the words of statements enter at most. -/
def Stmt.blockNesting : List Stmt → Nat
  | [] => 0
  | stmt :: rest => max (stmt.innerNesting + 1) (blockNesting rest)

end

/-! ## Words that start a line -/

/-- Whether a kind of word can start a line, in that it continues nothing from a line above. -/
def Kind.startsLine : Kind → Bool
  | .keyword _ | .identifier | .integer | .real | .boolean | .symbol .leftParen | .endOfFile => true
  | _ => false

/-- Whether a word can start a line, at or below a given one. -/
def Word.StartsLine (line : Nat) (word : Word) : Prop :=
  word.kind.startsLine = true ∧ (word.kind = .symbol .leftParen → line ≤ word.line)

namespace Word.StartsLine

variable {line : Nat} {word : Word}

/-- A word that starts a line is of none of the kinds that continue one. -/
theorem kind_ne (starts : word.StartsLine line) {kind : Kind} (other : kind.startsLine = false) :
    word.kind ≠ kind := fun same => by
  have both := starts.1
  rw [same, other] at both
  cases both

/-- A word that starts the next line ends the expressions on the line before. -/
theorem endsExpr (starts : word.StartsLine (line + 1)) : word.EndsExpr line := by
  refine ⟨⟨starts.kind_ne rfl, starts.kind_ne rfl, fun paren same => ?_⟩, starts.kind_ne rfl, ?_⟩
  · have below := starts.2 paren
    omega
  · cases found : BinaryOp.ofKind? word.kind with
    | none => rfl
    | some op => exact absurd (BinaryOp.eq_of_ofKind? found) (starts.kind_ne (by cases op <;> rfl))

theorem of_keyword {keyword : Keyword} (reserved : word.kind = .keyword keyword) :
    word.StartsLine line := by
  unfold StartsLine
  rw [reserved]
  exact ⟨rfl, nofun⟩

end Word.StartsLine

/-- Whether a kind of word ends a block. -/
def Kind.endsBlock (kind : Kind) : Bool := kind = .keyword .elseWord || kind = .keyword .endWord

/-- A word that ends a block starts any line. -/
theorem Word.startsLine_of_endsBlock {line : Nat} {word : Word}
    (ends : word.kind.endsBlock = true) : word.StartsLine line := by
  rw [Kind.endsBlock, Bool.or_eq_true, decide_eq_true_eq, decide_eq_true_eq] at ends
  rcases ends with reserved | reserved
  · exact .of_keyword reserved
  · exact .of_keyword reserved

/-- What starts an operand can start a line, and does not end a block. -/
theorem Grammar.of_startsOperand {kind : Kind} (starts : startsOperand kind = true) :
    kind.endsBlock = false ∧ kind.startsLine = true := by
  unfold startsOperand at starts
  split at starts
  · exact ⟨rfl, rfl⟩
  · exact ⟨rfl, rfl⟩
  · exact ⟨rfl, rfl⟩
  · exact ⟨rfl, rfl⟩
  · exact ⟨rfl, rfl⟩
  · exact ⟨rfl, rfl⟩
  · cases starts

/-- A statement starts a line, and not with a word that ends a block. -/
theorem Stmt.starts_words (line : Nat) (stmt : Stmt) :
    Starts (fun word => word.kind.endsBlock = false ∧ word.StartsLine line)
      (stmt.words line) := by
  have operand (expr : Expr) :
      Starts (fun word => word.kind.endsBlock = false ∧ word.StartsLine line)
        (expr.words line) := by
    refine (expr.starts_words line).mono ?_
    rintro word ⟨starts, rfl⟩
    obtain ⟨inside, begins⟩ := of_startsOperand starts
    exact ⟨inside, begins, fun _ => Nat.le_refl _⟩
  cases stmt with
  | assign target value => exact (operand target).append _
  | eval value => exact operand value
  | branch test body alternative =>
    cases alternative <;> exact starts_cons ⟨rfl, .of_keyword rfl⟩
  | _ => exact starts_cons ⟨rfl, .of_keyword rfl⟩

/-- A statement does not start with a word that ends the block around it. -/
theorem Stmt.starts_inside (line : Nat) (stmt : Stmt) {ends : Kind → Bool}
    (only : ∀ kind, ends kind = true → kind.endsBlock = true) :
    Starts (fun word => ends word.kind = false) (stmt.words line) := by
  refine (stmt.starts_words line).mono fun word starts => ?_
  refine Bool.eq_false_iff.mpr fun closing => ?_
  rw [only _ closing] at starts
  cases starts.1

/-- Whether a statement or the end of the block comes first, it starts a line. -/
theorem Stmt.starts_blockWords (line : Nat) (block : List Stmt) {rest : List Word}
    (stop : Starts (StartsLine line) rest) :
    Starts (StartsLine line) (blockWords line block ++ rest) := by
  cases block with
  | nil => exact stop
  | cons stmt others =>
    exact (((stmt.starts_words _).mono fun _ starts => starts.2).append _).append _

/-! ## Statements without blocks -/

section Body

variable {expr : Reading Expr} {statement : Reading Stmt} {words rest : List Word}
  {levels need : Nat} {good : Stmt → Prop}

/-- A statement that starts with an operand is an assignment or an expression. -/
theorem Grammar.reads_statementBody_operand
    (start : Starts (fun word => startsOperand word.kind = true) words)
    (reads : ∀ position, Reads (do
      let target ← expr
      match ← takeIf (fun token => token.kind = .symbol .assign) with
      | some _ => return .assign target (← expr) position
      | none => return .eval target position) words rest levels need good) :
    Reads (statementBody expr statement) words rest levels need good := by
  refine bind_nothing reads_here fun position _ => ?_
  obtain ⟨word, tail, rfl, starts⟩ := start
  have well : word.kind ≠ .malformed := fun bad => by rw [bad] at starts; cases starts
  refine bind_nothing (reads_peek well) ?_
  rintro token rfl
  replace starts : startsOperand token.kind = true := starts
  split
  -- no keyword starts an operand but those that the last case is left with
  iterate 5 · next kind => rw [kind] at starts; cases starts
  exact reads position

end Body

section Statements

variable {levels line : Nat} {rest : List Word}

/-- A name and its initial value are read. -/
theorem Grammar.reads_binding (name : String) (init : Expr)
    (stop : Starts (EndsExpr line) rest) :
    Reads (binding (ofLevels levels).expr)
      (Word.keyword line .varWord :: Word.name line name :: Word.symbol line .colon :: init.words line)
      rest levels init.nesting fun field => field.name = name ∧ field.init.erase = init.erase := by
  refine bind_word (reads_keyword line .varWord) fun token _ => ?_
  refine bind_word (reads_name line name) ?_
  rintro ⟨_, _⟩ rfl
  refine bind_word (reads_symbol line .colon) fun _ _ => ?_
  exact (init.reads_words levels stop).bind_pure fun value same => ⟨rfl, same⟩

namespace Stmt

/-- Whether the words of a statement are read as the statement, the semicolon behind it left aside. -/
def ReadsBody (line levels : Nat) (rest : List Word) (stmt : Stmt) : Prop :=
  Reads (statementBody (ofLevels levels).expr (ofLevels levels).statement) (stmt.words line) rest
    levels stmt.innerNesting (·.erase = stmt.erase)

/-- A declaration is read. -/
theorem reads_declare (name : String) (init : Expr) (position : Position)
    (stop : Starts (EndsExpr line) rest) :
    ReadsBody line levels rest (declare name init position) := by
  refine reads_here_peek (rfl : _ = Kind.keyword .varWord) nofun fun here token kind => ?_
  rw [kind]
  refine (reads_binding name init stop).bind_pure ?_
  rintro field ⟨sameName, sameInit⟩
  rw [erase, erase, sameName, sameInit]

/-- An assignment is read. -/
theorem reads_assign (target value : Expr) (position : Position)
    (stop : Starts (EndsExpr line) rest) :
    ReadsBody line levels rest (assign target value position) := by
  have assigns : Starts (EndsExpr line)
      (Word.symbol line .assign :: value.words line ++ rest) :=
    starts_cons ⟨⟨nofun, nofun, nofun⟩, nofun, rfl⟩
  refine reads_statementBody_operand
    (((target.starts_words line).mono fun _ starts => starts.1).append _) fun here => ?_
  refine bind (target.reads_words levels assigns) fun found sameTarget => ?_
  refine bind_word (reads_takeIf rfl) fun sign some => ?_
  obtain ⟨sign, rfl⟩ := Option.isSome_iff_exists.mp some
  refine (value.reads_words levels stop).bind_pure fun found sameValue => ?_
  rw [erase, erase, sameTarget, sameValue]

/-- An expression that is a statement is read. -/
theorem reads_eval (value : Expr) (position : Position)
    (stop : Starts (StartsLine (line + 1)) rest) :
    ReadsBody line levels rest (eval value position) := by
  have ends := stop.mono fun _ starts => starts.endsExpr
  refine reads_statementBody_operand ((value.starts_words line).mono fun _ starts => starts.1)
    fun here => ?_
  refine (value.reads_words levels ends).bind_last fun found same => ?_
  obtain ⟨word, tail, rfl, starts⟩ := stop
  refine bind_nothing (reads_takeIf_other (starts.kind_ne rfl)) ?_
  rintro _ rfl
  refine reads_pure ?_
  rw [erase, erase, same]

/-- A return is read. -/
theorem reads_ret (value : Expr) (position : Position) (stop : Starts (EndsExpr line) rest) :
    ReadsBody line levels rest (ret value position) := by
  refine reads_here_peek (rfl : _ = Kind.keyword .returnWord) nofun fun here token kind => ?_
  rw [kind]
  refine bind_word (reads_keyword line .returnWord) fun _ _ => ?_
  refine (value.reads_words levels stop).bind_pure fun found same => ?_
  rw [erase, erase, same]

/-- An exit from a loop is read. -/
theorem reads_leave (position : Position) : ReadsBody line levels rest (leave position) := by
  refine reads_here_peek (rfl : _ = Kind.keyword .breakWord) nofun fun here token kind => ?_
  rw [kind]
  exact (reads_keyword line .breakWord).bind_pure fun _ _ => rfl

/-! ## Statements with blocks -/

/-- Whether the words of a block are read as the block, up to any of the words that end it. -/
def ReadsBlock (line : Nat) (block : List Stmt) : Prop :=
  ∀ (levels : Nat) (ends : Kind → Bool) (rest : List Word),
    (∀ kind, ends kind = true → kind.endsBlock = true) →
    Starts (fun word => ends word.kind = true) rest →
    ReadsWithin ends (ofLevels levels).statement (blockWords line block) rest levels
      (blockNesting block) (eraseBlock · = eraseBlock block)

/-- A block is read up to the word `end`. -/
theorem ReadsBlock.statements {block : List Stmt} (reads : ReadsBlock line block) {last : Nat} :
    Reads (Grammar.statements (ofLevels levels).statement) (blockWords line block)
      (Word.keyword last .endWord :: rest) levels (blockNesting block)
      (eraseBlock · = eraseBlock block) := by
  refine (reads levels _ _ ?_ (starts_cons (decide_eq_true rfl))).manyUntil
  intro kind closing
  rw [of_decide_eq_true closing]
  rfl

end Stmt

theorem Word.starts_endsExpr_keyword (keyword : Keyword) (last : Nat) :
    Starts (EndsExpr line) (Word.keyword last keyword :: rest) :=
  starts_cons (StartsLine.of_keyword rfl).endsExpr

namespace Stmt

/-- A loop is read. -/
theorem reads_loop {body : List Stmt} (block : ReadsBlock (line + 1) body) (test : Expr)
    (position : Position) : ReadsBody line levels rest (loop test body position) := by
  rw [ReadsBody, words, innerNesting]
  refine reads_here_peek (rfl : _ = Kind.keyword .whileWord) nofun fun here token kind => ?_
  rw [kind]
  refine bind_word (reads_keyword line .whileWord) fun _ _ => ?_
  refine bind (test.reads_words levels (starts_endsExpr_keyword _ _)) fun value same => ?_
  refine bind_word (reads_keyword line .loopWord) fun _ _ => ?_
  refine block.statements.bind_free fun stmts sames => ?_
  refine (reads_keyword _ .endWord).bind_pure fun _ _ => ?_
  rw [erase, erase, same, sames]

/-- The first block of a branch is read up to the word `else` or `end`. -/
theorem ReadsBlock.branch {block : List Stmt} (reads : ReadsBlock line block)
    {last : Nat} {keyword : Keyword} (ends : (Kind.keyword keyword).endsBlock = true) :
    Reads (manyUntil (fun kind => kind = .keyword .elseWord || kind = .keyword .endWord)
        (ofLevels levels).statement)
      (blockWords line block) (Word.keyword last keyword :: rest) levels
      (blockNesting block) (eraseBlock · = eraseBlock block) :=
  (reads levels _ _ (fun _ ends => ends) (starts_cons ends)).manyUntil

/-- A branch without an alternative is read. -/
theorem reads_branch_none {body : List Stmt} (block : ReadsBlock (line + 1) body)
    (test : Expr) (position : Position) :
    ReadsBody line levels rest (branch test body none position) := by
  rw [ReadsBody, words, innerNesting]
  refine reads_here_peek (rfl : _ = Kind.keyword .ifWord) nofun fun here token kind => ?_
  rw [kind]
  refine bind_word (reads_keyword line .ifWord) fun _ _ => ?_
  refine bind (test.reads_words levels (starts_endsExpr_keyword _ _)) fun value same => ?_
  refine bind_word (reads_keyword line .thenWord) fun _ _ => ?_
  refine (block.branch rfl).bind_free fun stmts sames => ?_
  refine bind_nothing (reads_optional_other nofun) ?_
  rintro _ rfl
  refine (reads_keyword _ .endWord).bind_pure fun _ _ => ?_
  rw [erase, erase, same, sames]

/-- A branch with an alternative is read. -/
theorem reads_branch_some {body alternative : List Stmt} (block : ReadsBlock (line + 1) body)
    (other : ReadsBlock (line + 1 + blockHeight body + 1) alternative) (test : Expr)
    (position : Position) :
    ReadsBody line levels rest (branch test body (some alternative) position) := by
  rw [ReadsBody, words, innerNesting]
  refine reads_here_peek (rfl : _ = Kind.keyword .ifWord) nofun fun here token kind => ?_
  rw [kind]
  refine bind_word (reads_keyword line .ifWord) fun _ _ => ?_
  refine bind (test.reads_words levels (starts_endsExpr_keyword _ _)) fun value same => ?_
  refine bind_word (reads_keyword line .thenWord) fun _ _ => ?_
  refine bind (block.branch rfl) fun stmts sames => ?_
  rw [← List.cons_append]
  refine bind_free (reads_optional rfl nofun other.statements) ?_
  rintro _ ⟨found, rfl, sames'⟩
  refine (reads_keyword _ .endWord).bind_pure fun _ _ => ?_
  rw [erase, erase, same, sames, sames']

/-- A statement is read together with the semicolon that may follow it. -/
theorem reads_of_body (levels : Nat) {stmt : Stmt} (body : ∀ levels, ReadsBody line levels rest stmt)
    (stop : Starts (·.kind ≠ .symbol .semicolon) rest) :
    Reads (ofLevels levels).statement (stmt.words line) rest levels (stmt.innerNesting + 1)
      (·.erase = stmt.erase) := by
  cases levels with
  | zero => exact reads_zero
  | succ levels =>
    exact Reads.bind_last (Reads.nested (body levels)) fun stmt found => reads_skipIf stop found

end Stmt

end Statements

mutual

/-- The words of a statement are read as the statement. -/
theorem Stmt.reads_body (levels line : Nat) (stmt : Stmt) {rest : List Word}
    (stop : Starts (StartsLine (line + stmt.height)) rest) : stmt.ReadsBody line levels rest := by
  cases stmt with
  | declare name init position =>
    exact reads_declare name init position (stop.mono fun _ starts => starts.endsExpr)
  | assign target value position =>
    exact reads_assign target value position (stop.mono fun _ starts => starts.endsExpr)
  | branch test body alternative position =>
    cases alternative with
    | none => exact reads_branch_none (reads_blockWords _ body) test position
    | some alternative =>
      exact reads_branch_some (reads_blockWords _ body)
        (reads_blockWords _ alternative) test position
  | loop test body position => exact reads_loop (reads_blockWords _ body) test position
  | ret value position =>
    exact reads_ret value position (stop.mono fun _ starts => starts.endsExpr)
  | leave position => exact reads_leave position
  | eval value position => exact reads_eval value position stop

theorem Stmt.reads_blockWords (line : Nat) (block : List Stmt) : Stmt.ReadsBlock line block := by
  intro levels ends rest only stop
  cases block with
  | nil =>
    obtain ⟨word, tail, rfl, closing⟩ := stop
    exact readsWithin_nil closing rfl
  | cons stmt others =>
    have next := starts_blockWords (line + stmt.height) others
      (stop.mono fun word closing => startsLine_of_endsBlock (only _ closing))
    have first := reads_of_body levels (fun levels => stmt.reads_body levels line next)
      (next.mono fun _ starts => starts.kind_ne rfl)
    have later := reads_blockWords (line + stmt.height) others levels ends rest only stop
    rw [blockWords, blockNesting]
    refine ReadsWithin.cons (stmt.starts_inside line only) first later
      fun value values same sames => ?_
    rw [eraseBlock, eraseBlock, same, sames]

end

end ClassLang
