import ClassLang.Proofs.Printing.Reading

/-! # Reading types and expressions back

How many levels of nesting the words of types and expressions enter is counted on the tree. Every
operator is printed in parentheses, which are a level of their own, and its right operand lies two
levels below its left one. Where there is room for these levels, the words of a type are read as the
type and the words of an expression as the expression, up to positions. What follows must not continue
them: brackets continue a name, a point and a parenthesis on the same line continue an operand, and an
operator an expression. -/

namespace ClassLang

open Reading Grammar List Word Reads

variable {rest : List Word}

/-! ## Counting levels -/

mutual

/-- How many levels the words of a type enter. -/
def TypeRef.nesting : TypeRef → Nat
  | ⟨_, arguments, _⟩ => TypeRef.listNesting arguments + 1

/-- How many levels the words of types enter at most. -/
def TypeRef.listNesting : List TypeRef → Nat
  | [] => 0
  | type :: rest => max type.nesting (TypeRef.listNesting rest)

end

mutual

/-- How many levels the words of an expression enter below the level of the expression. -/
def Expr.innerNesting : Expr → Nat
  | .ident _ arguments _ => TypeRef.listNesting arguments
  | .binary _ left right _ => max left.innerNesting (right.innerNesting + 2) + 1
  | .member target _ _ => target.innerNesting
  | .call callee arguments _ => max callee.innerNesting (Expr.listNesting arguments)
  | .self _ | .int _ _ | .real _ _ | .bool _ _ => 0

/-- How many levels the words of expressions enter at most. -/
def Expr.listNesting : List Expr → Nat
  | [] => 0
  | expr :: rest => max (expr.innerNesting + 1) (Expr.listNesting rest)

end

/-- How many levels the words of an expression enter. -/
def Expr.nesting (expr : Expr) : Nat := expr.innerNesting + 1

theorem TypeRef.listNesting_eq (types : List TypeRef) :
    listNesting types = (types.map nesting).foldr max 0 := by
  induction types with
  | nil => rfl
  | cons type rest ih => rw [listNesting, ih, map_cons, foldr_cons]

theorem Expr.listNesting_eq (exprs : List Expr) :
    listNesting exprs = (exprs.map nesting).foldr max 0 := by
  induction exprs with
  | nil => rfl
  | cons expr rest ih => rw [listNesting, ih, map_cons, foldr_cons, nesting]

/-! ## Types -/

section Types

variable (line : Nat) {levels : Nat} {rest : List Word}

theorem Grammar.reads_name (text : String) :
    Reads name [Word.name line text] rest levels 0 (·.1 = text) :=
  bind_pure (reads_expect rfl nofun) fun _ found => congrArg Word.text found

theorem Grammar.reads_literal (kind : Kind) (text : String) (well : kind ≠ .malformed) :
    Reads (expect kind) [⟨kind, text, line⟩] rest levels 0 (·.text = text) :=
  mono (reads_expect rfl well) fun _ found => congrArg Word.text found

namespace TypeRef

mutual

/-- The words of a type are read as the type. -/
theorem reads_words (levels : Nat) (type : TypeRef) {rest : List Word}
    (stop : Starts (·.kind ≠ .symbol .leftBracket) rest) :
    Reads (ofLevels levels).type (type.words line) rest levels type.nesting
      (·.erase = type.erase) := by
  cases levels with
  | zero => exact reads_zero
  | succ levels =>
    obtain ⟨name, arguments, position⟩ := type
    rw [nesting]
    refine nested (bind_word (reads_name line name) ?_)
    rintro ⟨found, position⟩ rfl
    refine (reads_argumentsWords levels arguments stop).bind_pure fun value same => ?_
    rw [erase, erase, same]

theorem reads_argumentsWords (levels : Nat) (arguments : List TypeRef) {rest : List Word}
    (stop : Starts (·.kind ≠ .symbol .leftBracket) rest) :
    Reads (typeArguments (ofLevels levels).type) (argumentsWords line arguments) rest levels
      (listNesting arguments) (eraseList · = eraseList arguments) := by
  cases arguments with
  | nil =>
    obtain ⟨word, tail, rfl, other⟩ := stop
    rw [listNesting]
    refine bind_pure (reads_optional_other other) ?_
    rintro _ rfl
    rfl
  | cons first others =>
    rw [argumentsWords, furtherWords_eq, listNesting_eq, eraseList_eq_map]
    -- the types are the first one and the others, which are parts of the list
    have inside : Reads _ _ rest _ _ _ := reads_closed line .rightBracket nofun nofun nofun
      (forall_mem_cons.mpr
        ⟨fun rest stop => first.reads_words levels stop, reads_each levels others⟩)
    refine bind_pure (reads_optional rfl nofun inside) ?_
    rintro _ ⟨found, rfl, same⟩
    exact (eraseList_eq_map found).trans same

theorem reads_each (levels : Nat) (types : List TypeRef) : ∀ type ∈ types, ∀ rest,
    Starts (·.kind ≠ .symbol .leftBracket) rest →
      Reads (ofLevels levels).type (type.words line) rest levels type.nesting
        (·.erase = type.erase) := by
  cases types with
  | nil => exact forall_mem_nil _
  | cons type others =>
    exact forall_mem_cons.mpr
      ⟨fun rest stop => type.reads_words levels stop, reads_each levels others⟩

end

end TypeRef

end Types

/-! ## Words around expressions -/

/-- Whether a word does not continue an operand that ends on a line. -/
def Word.EndsOperand (line : Nat) (word : Word) : Prop :=
  word.kind ≠ .symbol .leftBracket ∧ word.kind ≠ .symbol .period ∧
    (word.kind = .symbol .leftParen → word.line ≠ line)

/-- Whether a word does not continue an expression that ends on a line. -/
def Word.EndsExpr (line : Nat) (word : Word) : Prop :=
  word.EndsOperand line ∧ word.kind ≠ .malformed ∧ BinaryOp.ofKind? word.kind = none

theorem Word.endsExpr_of_closing (line : Nat) (word : Word)
    (closing : word.kind = .symbol .rightParen) : word.EndsExpr line := by
  unfold EndsExpr EndsOperand
  rw [closing]
  exact ⟨⟨nofun, nofun, nofun⟩, nofun, rfl⟩

namespace Expr

/-- An expression starts with a word that starts an operand. -/
theorem starts_words (line : Nat) (expr : Expr) :
    Starts (fun word => startsOperand word.kind = true ∧ word.line = line)
      (expr.words line) := by
  cases expr with
  | member target name => exact (target.starts_words line).append _
  | call callee arguments => exact (callee.starts_words line).append _
  | _ => exact starts_cons ⟨rfl, rfl⟩

/-- An expression does not start with the parenthesis that closes a call. -/
theorem starts_inside (line : Nat) (expr : Expr) :
    Starts (·.kind ≠ .symbol .rightParen) (expr.words line) := by
  refine (expr.starts_words line).mono fun word starts closing => ?_
  rw [closing] at starts
  cases starts.1

theorem starts_argumentsWords (line : Nat) (arguments : List Expr) :
    Starts (· = symbol line .leftParen) (argumentsWords line arguments) := by
  cases arguments <;> exact starts_cons rfl

/-- The arguments of a call end on their line. -/
theorem lastLine_argumentsWords (line start : Nat) (arguments : List Expr) :
    lastLine start (argumentsWords line arguments) = line := by
  cases arguments with
  | nil => rfl
  | cons first others =>
    rw [argumentsWords, ← cons_append, lastLine_append]
    rfl

/-- An expression ends on its line. -/
theorem lastLine_words (line start : Nat) (expr : Expr) :
    lastLine start (expr.words line) = line := by
  cases expr with
  | ident name arguments =>
    cases arguments with
    | nil => rfl
    | cons first others =>
      rw [words, TypeRef.argumentsWords, ← cons_append, ← cons_append, lastLine_append]
      rfl
  | binary op left right =>
    rw [words, ← cons_append, ← cons_append, ← append_assoc, lastLine_append]
    rfl
  | member target name =>
    rw [words, lastLine_append]
    rfl
  | call callee arguments =>
    rw [words, lastLine_append, lastLine_argumentsWords]
  | _ => rfl

end Expr

/-! ## Operators -/

section Operators

variable {line levels : Nat} {rest : List Word}

/-- An operator that binds tightly enough is read. -/
theorem Grammar.reads_operator? {least : Nat} {op : BinaryOp} (tight : least ≤ op.precedence) :
    Reads (operator? least) [symbol line op.symbol] rest levels 0 fun found =>
      ∃ token, found = some (op, token) ∧ token.word = symbol line op.symbol := by
  refine bind_nothing (reads_peek nofun) fun next seen => ?_
  have kind : next.kind = .symbol op.symbol := congrArg kind seen
  rw [kind, BinaryOp.ofKind?_symbol]
  dsimp only
  rw [if_pos tight]
  have well : (symbol line op.symbol).kind ≠ .malformed := nofun
  exact (reads_take well).bind_pure fun token found => ⟨token, rfl, found⟩

/-- No operator is read where a word ends the expression. -/
theorem Grammar.reads_operator?_none (least : Nat) (stop : Starts (EndsExpr line) rest) :
    Reads (operator? least) [] rest levels 0 (· = none) := by
  obtain ⟨word, tail, rfl, -, well, other⟩ := stop
  refine bind_nothing (reads_peek well) ?_
  rintro next rfl
  replace other : BinaryOp.ofKind? next.kind = none := other
  rw [other]
  exact reads_pure rfl

/-- An operand on the line of its operator is accepted. -/
theorem Grammar.reads_checkOperand {operator : Token} (same : operator.position.line = line)
    (start : Starts (fun word => startsOperand word.kind = true ∧ word.line = line) rest) :
    Reads (checkOperand operator) [] rest levels 0 fun _ => True := by
  obtain ⟨word, tail, rfl, starts, here⟩ := start
  have well : word.kind ≠ .malformed := fun bad => by rw [bad] at starts; cases starts
  refine bind_nothing (reads_peek well) ?_
  rintro next rfl
  have fits : (startsOperand next.kind && decide (next.position.line = operator.position.line)) =
      true := by
    rw [same, Bool.and_eq_true, decide_eq_true_eq]
    exact ⟨starts, here⟩
  rw [if_pos fits]
  exact reads_pure trivial

/-- Nothing continues an expression where a word ends it. -/
theorem Grammar.reads_chain_stop (levels least : Nat) (value : Expr)
    (stop : Starts (EndsExpr line) rest) :
    Reads ((ofLevels levels).chain least value) [] rest levels 0 (· = value) := by
  cases levels with
  | zero => exact reads_zero
  | succ levels =>
    refine bind_nothing (reads_operator?_none least stop) ?_
    rintro _ rfl
    exact reads_pure rfl

end Operators

/-! ## Operands

The words of an operand cannot be read on their own: members and calls are read one after another
behind the innermost operand. So the induction is about what is read *and then continued*: when the
words of an expression have been read, the suffixes that follow are read in its place. -/

/-- Where a word ends the operand, the operand stays as it is. -/
theorem Grammar.suffixes_stop_eq {expr : Reading Expr} {line : Nat} {reader : Reader} (value : Expr)
    (budget : Nat) (stop : Starts (EndsOperand line) rest) (next : reader.words = rest)
    (here : reader.last.line = line) : suffixesWithin expr budget value reader = .ok value reader := by
  obtain ⟨word, tail, rfl, -, notPeriod, otherLine⟩ := stop
  obtain ⟨token, more, eq, rfl, -⟩ := reader.eq_of_words next
  replace notPeriod : token.kind ≠ .symbol .period := notPeriod
  have looked (condition : Token → Bool) :
      (check condition : Reading _) reader = .ok (condition token) reader := by
    rw [eq]
    rfl
  cases budget with
  | zero => rfl
  | succ budget =>
    unfold suffixesWithin suffix? checkKind
    rw [bind_assoc, bind_of_ok (looked _), if_neg (mt of_decide_eq_true notPeriod)]
    have noCall : (decide (token.kind = .symbol .leftParen) &&
        decide (token.position.line = reader.last.line)) = false := by
      rw [here, Bool.and_eq_false_iff, decide_eq_false_iff_not, decide_eq_false_iff_not]
      by_cases paren : token.kind = .symbol .leftParen
      · exact .inr (otherLine paren)
      · exact .inl paren
    have got : (get : Reading Reader) reader = .ok reader reader := rfl
    rw [bind_assoc, bind_of_ok got, bind_assoc, bind_of_ok (looked _), noCall]
    rfl

/-- A parenthesis on the line of the word before it opens a call. -/
theorem Grammar.reads_checkCall {line levels : Nat} {last : Position} (here : last.line = line)
    {words : List Word} :
    Reads (check fun token => token.kind = .symbol .leftParen && token.position.line = last.line) []
      (symbol line .leftParen :: words ++ rest) levels 0 (· = true) := by
  refine reads_check fun token found => ?_
  have kind : token.kind = .symbol .leftParen := congrArg kind found
  have same : token.position.line = line := congrArg Word.line found
  rw [kind, same, here, decide_eq_true rfl, decide_eq_true rfl, Bool.and_true]

/-- Whether, after the words of an expression, the suffixes that follow are read behind it. -/
def Expr.Continues (expr : Expr) : Prop :=
  ∀ (line levels need : Nat) (rest : List Word) (reader : Reader) (post : Expr → Reader → Prop),
    Word.Starts (·.kind ≠ .symbol .leftBracket) rest → reader.words = expr.words line ++ rest →
    Covers levels reader.depth →
    (∀ value after budget, value.erase = expr.erase → reader.Past (expr.words line) rest after →
      rest.length ≤ budget → Gives (suffixesWithin (ofLevels levels).expr budget value) after need post) →
    Gives (postfixed (ofLevels levels).type (ofLevels levels).expr) reader
      (max expr.innerNesting need) post

/-- Whether the words of an expression are read without suffixes. -/
def Expr.ReadsPrimary (expr : Expr) : Prop :=
  ∀ (line levels : Nat) (rest : List Word), Word.Starts (·.kind ≠ .symbol .leftBracket) rest →
    Reads (primary (ofLevels levels).type (ofLevels levels).expr) (expr.words line) rest levels
      expr.innerNesting (·.erase = expr.erase)

/-- What is read without suffixes is continued by those that follow. -/
theorem Expr.ReadsPrimary.continues {expr : Expr} (reads : expr.ReadsPrimary) : expr.Continues := by
  intro line levels need rest reader post stop next covers continued
  refine (reads line levels rest stop).gives_bind next covers fun value after same past => ?_
  have enough : rest.length ≤ after.tokens.length :=
    Nat.le_of_eq (by rw [← past.left, after.length_words])
  exact continued value after _ same past enough

namespace Expr.Continues

variable {expr left right : Expr} {line need : Nat} {words rest : List Word}

/-- An operand is read together with what continues it. -/
theorem reads_continued {good : Expr → Prop} (continues : left.Continues) (levels least : Nat)
    (stop : Starts (EndsOperand line) (words ++ rest))
    (chain : ∀ value (after : Reader), value.erase = left.erase → after.words = words ++ rest →
      Covers (levels + 1) after.depth → Gives (chainBody (ofLevels levels) least value) after need
        fun found last => good found ∧ last.words = rest ∧
          last.last.line = lastLine after.last.line words) :
    Reads ((ofLevels (levels + 1)).binary least) (left.words line ++ words) rest (levels + 1)
      (max left.innerNesting need) good := by
  intro reader start covers
  rw [append_assoc] at start
  have gives : Gives (postfixed (ofLevels (levels + 1)).type (ofLevels (levels + 1)).expr >>=
      chainBody (ofLevels levels) least) reader (max (max left.innerNesting 0) need)
      fun found last => good found ∧ last.words = rest ∧
        last.last.line = lastLine reader.last.line (left.words line ++ words) := by
    refine Gives.bind (continues line (levels + 1) 0 _ reader _ (stop.mono fun _ ends => ends.1)
      start covers fun value after budget same past _ => ?_)
    -- no suffix follows the operand, so only what continues it is left to read
    have here : after.last.line = line := past.line.trans (left.lastLine_words line _)
    refine gives_of_eq (suffixes_stop_eq value budget stop past.left here) (covers.past past).1
      ⟨past.depth, ?_⟩
    rw [lastLine_append, ← past.line]
    exact chain value after same past.left (covers.past past)
  rw [Nat.max_zero] at gives
  exact Gives.restoringDepth (gives.mono fun _ _ holds => ⟨holds.1, holds.2.1, holds.2.2, rfl⟩)

/-- An expression is read with operators that bind as tightly as required behind it, as long as none
follows. -/
theorem reads_binary (continues : expr.Continues) (levels least : Nat)
    (stop : Starts (EndsExpr line) rest) :
    Reads ((ofLevels levels).binary least) (expr.words line) rest levels expr.innerNesting
      (·.erase = expr.erase) := by
  cases levels with
  | zero => exact reads_zero
  | succ levels =>
    have ends : Starts (EndsOperand line) ([] ++ rest) := stop.mono fun _ ends => ends.1
    have reads := continues.reads_continued levels least ends
      fun value after same following covers =>
        (reads_chain_stop (levels + 1) least value stop after following covers).mono
          fun found last holds => ⟨(congrArg erase holds.1).trans same, holds.2.left,
            holds.2.line⟩
    rwa [append_nil, Nat.max_zero] at reads

/-- An expression is read one level deeper. -/
theorem reads_operand (continues : expr.Continues) (levels least : Nat)
    (stop : Starts (EndsExpr line) rest) :
    Reads ((ofLevels levels).operand least) (expr.words line) rest levels expr.nesting
      (·.erase = expr.erase) := by
  cases levels with
  | zero => exact reads_zero
  | succ levels => exact (continues.reads_binary levels least stop).nested

/-- An operator and its right operand are read behind the left operand. -/
theorem gives_chain (continues : right.Continues) (levels : Nat) (op : BinaryOp) (value : Expr)
    (stop : Starts (EndsExpr line) rest) {reader : Reader}
    (next : reader.words = symbol line op.symbol :: right.words line ++ rest)
    (covers : Covers (levels + 1) reader.depth) :
    Gives (chainBody (ofLevels levels) 1 value) reader (right.innerNesting + 2) fun found last =>
      found.erase = .binary op value.erase right.erase .start ∧ last.words = rest ∧
        last.last.line = lastLine reader.last.line
          (symbol line op.symbol :: right.words line) := by
  have tight : 1 ≤ op.precedence := by cases op <;> decide
  have start := (right.starts_words line).append rest
  have sign : Reads (operator? 1) [symbol line op.symbol] (right.words line ++ rest)
      (levels + 1) 0 _ := reads_operator? tight
  refine sign.gives_bind_free next covers ?_
  rintro _ signed ⟨token, rfl, found⟩ past
  replace covers := covers.past past
  refine (reads_checkOperand (congrArg Word.line found) start).gives_bind_free past.left covers ?_
  intro _ checked _ past'
  replace covers := covers.past past'
  -- the operator takes a level of its own, inside which the operand takes another
  refine gives_deepen covers.1 fun below => ?_
  have inside : Covers levels (checked.depth + 1) := ⟨below, lt_of_lt_of_eq covers.2 (by omega)⟩
  have reads := (continues.reads_operand levels (op.precedence + 1) stop).bind_last
    fun operand same => (reads_chain_stop levels 1 (.binary op value operand value.position)
      stop).mono fun found eq => show found.erase = .binary op value.erase right.erase .start by
        rw [eq, erase, same]
  refine (reads { checked with depth := checked.depth + 1 } past'.left inside).mono ?_
  rintro found last ⟨same, behind⟩
  refine ⟨same, behind.left, behind.line.trans ?_⟩
  rw [right.lastLine_words]
  exact (right.lastLine_words line _).symm

/-- Two operands with an operator between them are read as the operator applied to them. -/
theorem reads_infix (leftContinues : left.Continues) (rightContinues : right.Continues)
    (levels : Nat) (op : BinaryOp) (stop : Starts (EndsExpr line) rest) :
    Reads (ofLevels levels).expr
      (left.words line ++ symbol line op.symbol :: right.words line) rest levels
      (max left.innerNesting (right.innerNesting + 2) + 1)
      (·.erase = .binary op left.erase right.erase .start) := by
  -- the operands lie two levels below: one for the expression and one inside it
  cases levels with
  | zero => exact reads_zero
  | succ levels =>
    refine nested ?_
    cases levels with
    | zero => exact reads_zero
    | succ levels =>
      refine leftContinues.reads_continued levels 1 (starts_cons ?_)
        fun value after same following covers => ?_
      · cases op <;> exact ⟨nofun, nofun, nofun⟩
      · rw [← same]
        exact rightContinues.gives_chain levels op value stop following covers

end Expr.Continues

/-! ## Expressions -/

namespace Expr

/-- The words of the arguments of a call are read as these arguments. -/
theorem reads_argumentsWords (line levels : Nat) {arguments : List Expr}
    (continues : ∀ expr ∈ arguments, expr.Continues) :
    Reads (callArguments (ofLevels levels).expr) (argumentsWords line arguments) rest levels
      (listNesting arguments) (eraseList · = eraseList arguments) := by
  cases arguments with
  | nil =>
    refine bind_word (reads_symbol line .leftParen) fun _ _ => ?_
    refine bind_nothing (reads_checkKind _) ?_
    rintro _ rfl
    have closing : (symbol line .rightParen).kind = .symbol .rightParen := rfl
    dsimp only
    rw [if_pos (decide_eq_true closing)]
    refine bind_nothing (reads_pure (Eq.refl [])) ?_
    rintro _ rfl
    exact (reads_symbol line .rightParen).bind_pure fun _ _ => rfl
  | cons first others =>
    have comma : (symbol line .comma).EndsExpr line := ⟨⟨nofun, nofun, nofun⟩, nofun, rfl⟩
    have listed : Reads _ _ rest levels _ _ :=
      reads_listed line .rightParen nofun comma (endsExpr_of_closing line _ rfl)
        (fun expr mem _ stop => (continues expr mem).reads_operand levels 1 stop)
        (first.starts_inside line)
    rw [argumentsWords, furtherWords_eq, listNesting_eq, eraseList_eq_map]
    refine bind_word (reads_symbol line .leftParen) fun _ _ => ?_
    exact listed.mono fun found sames => (eraseList_eq_map found).trans sames

/-- A member of an expression is read behind it. -/
theorem Continues.member {target : Expr} (continues : target.Continues) (name : String)
    (position : Position) : (member target name position).Continues := by
  intro line levels need rest reader post stop next covers continued
  rw [words, append_assoc] at next
  rw [innerNesting]
  have ends : Starts (·.kind ≠ .symbol .leftBracket)
      ([Word.symbol line .period, Word.name line name] ++ rest) := Word.starts_cons nofun
  refine continues line levels need _ reader post ends next covers ?_
  intro value after budget same past enough
  cases budget with
  | zero => cases enough
  | succ budget =>
    unfold suffixesWithin suffix?
    simp only [bind_assoc]
    refine (reads_checkKind _).gives_bind_free past.left (covers.past past) ?_
    rintro _ after rfl looked
    replace past := past.trans looked
    have dot : (symbol line .period).kind = .symbol .period := rfl
    rw [if_pos (decide_eq_true dot)]
    simp only [bind_assoc, pure_bind]
    refine (reads_symbol line .period).gives_bind_free past.left (covers.past past) ?_
    intro _ after _ dotted
    replace past := past.trans dotted
    refine (reads_name line name).gives_bind_free past.left (covers.past past) ?_
    rintro ⟨_, _⟩ after rfl named
    replace past := past.trans named
    rw [append_nil, append_assoc] at past
    refine continued _ after budget ?_ past ?_
    · rw [erase, erase, same]
    · exact Nat.le_of_succ_le (Nat.le_of_succ_le_succ enough)

/-- A call of an expression is read behind it. -/
theorem Continues.call {callee : Expr} (continues : callee.Continues) {arguments : List Expr}
    (each : ∀ expr ∈ arguments, expr.Continues) (position : Position) :
    (call callee arguments position).Continues := by
  intro line levels need rest reader post stop next covers continued
  rw [words, append_assoc] at next
  rw [innerNesting, Nat.max_assoc]
  have ends : Starts (·.kind ≠ .symbol .leftBracket)
      (argumentsWords line arguments ++ rest) := by
    cases arguments <;> exact starts_cons nofun
  refine continues line levels _ _ reader post ends next covers ?_
  intro value after budget same past enough
  obtain ⟨word, tail, split, rfl⟩ := starts_argumentsWords line arguments
  have following := past.left
  rw [split] at following
  rw [split, length_append, length_cons] at enough
  cases budget with
  | zero => omega
  | succ budget =>
    unfold suffixesWithin suffix?
    simp only [bind_assoc]
    refine (reads_checkKind _).gives_bind_free following (covers.past past) ?_
    rintro _ after rfl looked
    have other : (symbol line .leftParen).kind ≠ .symbol .period := nofun
    rw [if_neg (mt of_decide_eq_true other)]
    simp only [bind_assoc]
    replace past := past.trans looked
    have here : after.last.line = line := by
      rw [past.line, append_nil, callee.lastLine_words]
    refine (reads_checkCall here).gives_bind_free looked.left (covers.past past) ?_
    rintro _ after rfl checked
    rw [if_pos rfl]
    simp only [bind_assoc, pure_bind]
    replace past := past.trans checked
    rw [append_nil, append_nil] at past
    have next' : after.words = argumentsWords line arguments ++ rest := by
      rw [past.left, split]
    refine (reads_argumentsWords line levels each).gives_bind next' (covers.past past) ?_
    intro values after sames applied
    refine continued _ after budget ?_ (past.trans applied) (by omega)
    rw [erase, erase, same, sames]

/-- A name with the types it is applied to is read. -/
theorem readsPrimary_ident (name : String) (arguments : List TypeRef) (position : Position) :
    (ident name arguments position).ReadsPrimary := by
  intro line levels rest stop
  rw [innerNesting]
  refine reads_here_peek (rfl : _ = Kind.identifier) nofun fun here token kind => ?_
  rw [kind]
  refine bind_word (reads_name line name) ?_
  rintro ⟨_, _⟩ rfl
  refine (TypeRef.reads_argumentsWords line levels arguments stop).bind_pure fun value same => ?_
  rw [erase, erase, same]

theorem readsPrimary_self (position : Position) : (self position).ReadsPrimary := by
  intro line levels rest _
  refine reads_here_peek (rfl : _ = Kind.keyword .thisWord) nofun fun here token kind => ?_
  rw [kind]
  exact (reads_keyword line .thisWord).bind_pure fun _ _ => rfl

/-- An integer literal is read. -/
theorem readsPrimary_int (text : String) (position : Position) :
    (int text position).ReadsPrimary := by
  intro line levels rest _
  refine reads_here_peek (rfl : _ = Kind.integer) nofun fun here token kind => ?_
  rw [kind]
  refine (reads_literal line .integer text nofun).bind_pure fun literal same => ?_
  rw [erase, erase, same]

/-- A real literal is read. -/
theorem readsPrimary_real (text : String) (position : Position) :
    (real text position).ReadsPrimary := by
  intro line levels rest _
  refine reads_here_peek (rfl : _ = Kind.real) nofun fun here token kind => ?_
  rw [kind]
  refine (reads_literal line .real text nofun).bind_pure fun literal same => ?_
  rw [erase, erase, same]

/-- A truth value is read. -/
theorem readsPrimary_bool (value : Bool) (position : Position) :
    (bool value position).ReadsPrimary := by
  intro line levels rest _
  refine reads_here_peek (rfl : _ = Kind.boolean) nofun fun here token kind => ?_
  rw [kind]
  refine (reads_literal line .boolean _ nofun).bind_pure fun literal same => ?_
  rw [erase, erase, same]
  cases value <;> rfl

/-- An operator with its operands is read in the parentheses around it. -/
theorem Continues.readsPrimary_binary {left right : Expr} (leftContinues : left.Continues)
    (rightContinues : right.Continues) (op : BinaryOp) (position : Position) :
    (binary op left right position).ReadsPrimary := by
  intro line levels rest _
  have inside : (binary op left right position).words line = symbol line .leftParen ::
      ((left.words line ++ symbol line op.symbol :: right.words line) ++
        [symbol line .rightParen]) := by
    rw [words, append_assoc, cons_append]
  rw [inside, erase, innerNesting]
  refine reads_here_peek (rfl : _ = Kind.symbol .leftParen) nofun fun here token kind => ?_
  rw [kind]
  refine bind_word (reads_symbol line .leftParen) fun _ _ => ?_
  have stop : Starts (EndsExpr line) (symbol line .rightParen :: rest) :=
    starts_cons (endsExpr_of_closing line _ rfl)
  refine (leftContinues.reads_infix rightContinues levels op stop).bind_free fun value same => ?_
  exact (reads_symbol line .rightParen).bind_pure fun _ _ => same

mutual

/-- Every expression is read and then continued by the suffixes behind it. -/
theorem continues (expr : Expr) : expr.Continues := by
  cases expr with
  | ident name arguments position => exact (readsPrimary_ident name arguments position).continues
  | self position => exact (readsPrimary_self position).continues
  | int text position => exact (readsPrimary_int text position).continues
  | real text position => exact (readsPrimary_real text position).continues
  | bool value position => exact (readsPrimary_bool value position).continues
  | binary op left right position =>
    exact (left.continues.readsPrimary_binary right.continues op position).continues
  | member target name position => exact target.continues.member name position
  | call callee arguments position =>
    exact callee.continues.call (continues_of_mem arguments) position

theorem continues_of_mem (exprs : List Expr) : ∀ expr ∈ exprs, expr.Continues := by
  cases exprs with
  | nil => nofun
  | cons expr others =>
    exact forall_mem_cons.mpr ⟨expr.continues, continues_of_mem others⟩

end

theorem reads_words {line : Nat} (levels : Nat) (expr : Expr) (stop : Starts (EndsExpr line) rest) :
    Reads (ofLevels levels).expr (expr.words line) rest levels expr.nesting
      (·.erase = expr.erase) :=
  expr.continues.reads_operand levels 1 stop

end Expr

end ClassLang
