import ClassLang.Proofs.Grammar.Consumption
import ClassLang.Syntax.Equality

/-! # Operators by precedence

A row of operands with operators between them is grouped at the last of the operators that bind most
loosely, and so are the rows on both sides of it (`Groups`). A row has one tree (`Groups.unique`), and
the grammar reads it as that tree (`Grammar.groups_of_expr`). -/

namespace ClassLang

open Cursor Reading List

/-! ## The tree of a row -/

/-- Comparisons bind most loosely, then sums and differences, then products and quotients. -/
theorem BinaryOp.precedence_lt_iff (op op' : BinaryOp) :
    op.precedence < op'.precedence ↔
      op.isComparison = true ∧ op'.isComparison = false ∨ op ∈ [add, sub] ∧ op' ∈ [mul, div] := by
  cases op <;> cases op' <;> decide

/-- The tree of a row, which is a first operand with operators and operands behind it. Its root is the
last of the operators that bind most loosely. -/
inductive Groups : Expr → List (BinaryOp × Expr) → Expr → Prop
  | single {first} : Groups first [] first
  | split {op first second left right before after}
      (lefts : Groups first before left) (rights : Groups second after right)
      (loosest : ∀ item ∈ before, op.precedence ≤ item.1.precedence)
      (last : ∀ item ∈ after, op.precedence < item.1.precedence) :
      Groups first (before ++ (op, second) :: after) (.binary op left right left.position)

/-- The operator at which a row is split is the only one of its kind. -/
theorem eq_of_split {item item' : BinaryOp × Expr} {before before' after after' : List (BinaryOp × Expr)}
    (eq : before ++ item :: after = before' ++ item' :: after')
    (loosest : ∀ other ∈ before, item.1.precedence ≤ other.1.precedence)
    (last : ∀ other ∈ after, item.1.precedence < other.1.precedence)
    (loosest' : ∀ other ∈ before', item'.1.precedence ≤ other.1.precedence)
    (last' : ∀ other ∈ after', item'.1.precedence < other.1.precedence) :
    before' = before ∧ item' = item ∧ after' = after := by
  -- of two different operators one stands before the other, so it binds more loosely, and as tightly
  rcases append_eq_append_iff.mp eq with ⟨_ | ⟨next, between⟩, rfl, behind⟩ |
    ⟨_ | ⟨next, between⟩, rfl, behind⟩
  · obtain ⟨rfl, rfl⟩ := cons.inj behind
    exact ⟨append_nil _, rfl, rfl⟩
  · obtain ⟨rfl, rfl⟩ := cons.inj behind
    have tight := loosest' item (mem_append_right _ mem_cons_self)
    have loose := last item' (mem_append_right _ mem_cons_self)
    omega
  · obtain ⟨rfl, rfl⟩ := cons.inj behind
    exact ⟨(append_nil _).symm, rfl, rfl⟩
  · obtain ⟨rfl, rfl⟩ := cons.inj behind
    have tight := loosest item' (mem_append_right _ mem_cons_self)
    have loose := last' item (mem_append_right _ mem_cons_self)
    omega

/-- A row has only one tree. -/
theorem Groups.unique {first tree tree' : Expr} {rest : List (BinaryOp × Expr)}
    (groups : Groups first rest tree) (groups' : Groups first rest tree') : tree' = tree := by
  induction groups generalizing tree' with
  | single =>
    generalize empty : ([] : List (BinaryOp × Expr)) = rest at groups'
    cases groups' with
    | single => rfl
    | split => simp at empty
  | @split op first second left right before after _ _ loosest last ihl ihr =>
    generalize eq : before ++ (op, second) :: after = rest at groups'
    cases groups' with
    | single => simp at eq
    | split lefts' rights' loosest' last' =>
      obtain ⟨rfl, same, rfl⟩ := eq_of_split eq loosest last loosest' last'
      cases same
      rw [ihl lefts', ihr rights']

/-- What is spelled with some levels of nesting is spelled with more. -/
theorem Derives.mono {levels levels' : Nat} {phrase : Phrase} {c₀ c₁ : Cursor}
    (derived : Derives levels phrase c₀ c₁) (more : levels ≤ levels') :
    Derives levels' phrase c₀ c₁ := by
  induction derived generalizing levels'
  case type | operand | chain | statement =>
    obtain ⟨less, rfl⟩ := Nat.exists_eq_add_one_of_ne_zero (Nat.ne_zero_of_lt more)
    have fewer := Nat.le_of_succ_le_succ more
    constructor <;> solve_by_elim
  case call sameLine _ _ applied continues =>
    exact .call sameLine (applied more) (continues more)
  all_goals constructor <;> solve_by_elim

/-! ## Rows of tokens -/

/-- The place where a reader stands. -/
def Reader.place (reader : Reader) : Cursor := ⟨reader.tokens, reader.last⟩

/-- Whether a token is an operator. -/
def Token.IsOperator (token : Token) : Prop := (BinaryOp.ofKind? token.kind).isSome = true

theorem Token.binds_one_iff (token : Token) : token.Binds 1 ↔ token.IsOperator := by
  rw [IsOperator, Option.isSome_iff_exists]
  refine exists_congr fun op => and_iff_left ?_
  cases op <;> decide

/-- Where no operator that binds tightly comes next, none that binds more tightly does. -/
theorem Cursor.Lacks.binds_mono {cursor : Cursor} {least most : Nat} (lacks : cursor.Lacks (Token.Binds least))
    (more : least ≤ most) : cursor.Lacks (Token.Binds most) := by
  rintro token found ⟨op, isOp, binds⟩
  exact lacks token found ⟨op, isOp, Nat.le_trans more binds⟩

namespace Grammar

variable {reader after : Reader}

/-- An expression without operators is read between two places, with no level of nesting around it. -/
def ReadsPostfixed (expr : Expr) (c₀ c₁ : Cursor) : Prop :=
  (postfixed outermost.type outermost.expr : Reading _) (c₀.reader 0) = .ok expr (c₁.reader 0)

/-- A row of expressions without operators stands between two places, with operators between them. -/
inductive Row : Expr → List (BinaryOp × Expr) → Cursor → Cursor → Prop
  | single {first c₀ c₁} (read : ReadsPostfixed first c₀ c₁) : Row first [] c₀ c₁
  | more {op sign first second rest c₀ c₁ c₂ c₃} (read : ReadsPostfixed first c₀ c₁)
      (signed : Step (.symbol op.symbol) sign c₁ c₂) (further : Row second rest c₂ c₃) :
      Row first ((op, second) :: rest) c₀ c₃

section Rows

variable {op : BinaryOp} {sign : Token} {first first' second : Expr}
  {before after rest rest' : List (BinaryOp × Expr)} {c₀ c₁ c₁' c₂ c₃ : Cursor}

theorem Row.append (row : Row first before c₀ c₁) (signed : Step (.symbol op.symbol) sign c₁ c₂)
    (further : Row second after c₂ c₃) : Row first (before ++ (op, second) :: after) c₀ c₃ := by
  induction row with
  | single read => exact .more read signed further
  | more read signed' _ ih => exact .more read signed' (ih signed)

/-- Only one expression without operators is read at a place. -/
theorem ReadsPostfixed.unique (read : ReadsPostfixed first c₀ c₁)
    (read' : ReadsPostfixed first' c₀ c₁') : first' = first ∧ c₁' = c₁ := by
  obtain ⟨rfl, same⟩ := EStateM.Result.ok.inj (read'.symm.trans read)
  obtain ⟨tokens, last⟩ := c₁
  obtain ⟨tokens', last'⟩ := c₁'
  cases same
  exact ⟨rfl, rfl⟩

/-- Only one row that no operator follows starts at a place. -/
theorem Row.unique (row : Row first rest c₀ c₁) (ends : c₁.Lacks Token.IsOperator)
    (row' : Row first' rest' c₀ c₁') (ends' : c₁'.Lacks Token.IsOperator) :
    first' = first ∧ rest' = rest ∧ c₁' = c₁ := by
  have operates {op : BinaryOp} {sign : Token} {c c' : Cursor}
      (signed : Step (.symbol op.symbol) sign c c') : ¬c.Lacks Token.IsOperator := fun lacks =>
    lacks sign signed.next?_eq (by rw [Token.IsOperator, signed.kind_eq, BinaryOp.ofKind?_symbol]; rfl)
  induction row generalizing first' rest' with
  | single read =>
    cases row' with
    | single read' =>
      obtain ⟨rfl, rfl⟩ := read.unique read'
      exact ⟨rfl, rfl, rfl⟩
    | more read' signed' _ =>
      obtain ⟨rfl, rfl⟩ := read.unique read'
      exact absurd ends (operates signed')
  | more read signed _ ih =>
    cases row' with
    | single read' =>
      obtain ⟨rfl, rfl⟩ := read.unique read'
      exact absurd ends' (operates signed)
    | more read' signed' further' =>
      obtain ⟨rfl, rfl⟩ := read.unique read'
      have kinds := signed'.kind_eq
      rw [signed'.eq_of_next? signed.next?_eq, signed.kind_eq] at kinds
      have ops := congrArg BinaryOp.ofKind? kinds
      rw [BinaryOp.ofKind?_symbol, BinaryOp.ofKind?_symbol] at ops
      cases ops
      cases signed
      cases signed'
      obtain ⟨rfl, rfl, rfl⟩ := ih ends further'
      exact ⟨rfl, rfl, rfl⟩

end Rows

/-! ## Levels of nesting around a row -/

/-- Tokens of a program with one more token behind them can be completed. -/
theorem exists_complete {taken : List Token} (used : ∀ token ∈ taken, token.kind.isUsed = true)
    {next : Token} (well : next.kind ≠ .malformed) :
    ∃ left, left.head? = some next ∧ Token.Complete (taken ++ left) := by
  have inside : ∀ token ∈ taken, token.kind ≠ .malformed ∧ token.kind ≠ .endOfFile := fun token mem =>
    ⟨Kind.ne_malformed_of_isUsed (used token mem), fun ends => by
      have isUsed := used token mem
      rw [ends] at isUsed
      cases isUsed⟩
  by_cases ends : next.kind = .endOfFile
  · exact ⟨[next], rfl, taken, next, rfl, ends, inside⟩
  · refine ⟨[next, ⟨.endOfFile, "", .start⟩], rfl, taken ++ [next], ⟨.endOfFile, "", .start⟩,
      by simp, rfl, ?_⟩
    rw [forall_mem_append, forall_mem_singleton]
    exact ⟨inside, well, ends⟩

/-- What is read somewhere as an expression without operators is read so with no level of nesting
around it. -/
theorem readsPostfixed_of_run {levels : Nat} {expr : Expr} {next : Token} {rest : List Token}
    (total : reader.depth + levels = maxDepth)
    (run : (postfixed (ofLevels (levels + 1)).type ((ofLevels (levels + 1)).operand 1) : Reading _)
      reader = .ok expr after) (follows : after.tokens = next :: rest) (well : next.kind ≠ .malformed) :
    ReadsPostfixed expr reader.place after.place ∧ after.depth = reader.depth := by
  have takesUp (levels : Nat) :
      Reading.TakesUp (postfixed (ofLevels levels).type ((ofLevels levels).operand 1)) :=
    (advances_postfixed (takesUp_ofLevels levels).type
      ((takesUp_ofLevels levels).operand 1).takesUp).takesUp
  have matched {levels depth : Nat} (total : depth + levels = maxDepth) :
      Matches (postfixed (ofLevels (levels + 1)).type ((ofLevels (levels + 1)).operand 1)) depth
        fun expr => Derives levels (.postfixed expr) :=
    matches_postfixed (follows_ofLevels levels depth total).type
      ((follows_ofLevels levels depth total).operand 1)
  obtain ⟨tokens, last, depth⟩ := reader
  obtain ⟨tokens', last', depth'⟩ := after
  obtain ⟨taken, takes⟩ := takesUp (levels + 1) none ⟨tokens, last, depth⟩
  have tokens_eq : tokens = taken ++ tokens' := by
    have eq := takes.tokens_eq
    rwa [after_of_ok run] at eq
  subst tokens_eq
  dsimp only at total follows
  -- the text is cut behind the next token, so that it is complete and the grammar says what is read
  obtain ⟨left, ahead, complete⟩ := exists_complete takes.used well
  have same : left.head? = tokens'.head? := by rw [ahead, follows, head?_cons]
  have cut := (takesUp (levels + 1)).ok_of_ok same run
  obtain ⟨place, derived, placed⟩ := (matched total ⟨taken ++ left, last⟩ complete).ok_iff.mp cut
  obtain ⟨lefts, lasts, depths⟩ := Reader.mk.inj placed
  have deeper := derived.mono (Nat.le_trans (Nat.le_add_left _ _) (Nat.le_of_eq total))
  have outer := (matched (Nat.zero_add maxDepth) ⟨taken ++ left, last⟩ complete).ok_iff.mpr
    ⟨place, deeper, rfl⟩
  rw [reader, reader, ← lefts, ← lasts] at outer
  exact ⟨(takesUp (maxDepth + 1)).ok_of_ok same.symm outer, depths⟩

/-! ## Climbing -/

/-- An operand that is checked stays where it is. -/
theorem checkOperand_eq_ok {operator : Token}
    (run : (checkOperand operator : Reading _) reader = .ok () after) : after = reader := by
  obtain ⟨tokens, last, depth⟩ := reader
  cases tokens with
  | nil => cases run
  | cons token rest =>
    by_cases bad : token.kind = .malformed
    · rw [checkOperand, bind_of_error (peek_malformed bad rest last depth)] at run
      cases run
    · rw [checkOperand, bind_of_ok (peek_cons bad rest last depth)] at run
      split at run
      · cases run
        rfl
      · cases run

/-- Entering a level changes only the depth. -/
theorem deepen_eq_ok (run : (deepen : Reading _) reader = .ok () after) :
    after = { reader with depth := reader.depth + 1 } := by
  rw [deepen_eq] at run
  split at run
  · cases run
    rfl
  · cases run

/-- An operand with operators that bind at least as tightly as given stands between two places, and no
such operator comes next. -/
def Stands (least : Nat) (expr : Expr) (c₀ c₁ : Cursor) : Prop :=
  (∃ first rest, Row first rest c₀ c₁ ∧ Groups first rest expr ∧
    ∀ item ∈ rest, least ≤ item.1.precedence) ∧ c₁.Lacks (Token.Binds least)

/-- Whether the readings of a grammar at a depth group rows by precedence. -/
structure Climbs (grammar : Grammar Reading) (depth : Nat) : Prop where
  /-- An operand is the tree of a row, and is read back to the depth from before. -/
  operand : ∀ {least : Nat} {reader after : Reader} {expr : Expr}, reader.depth = depth →
    grammar.operand least reader = .ok expr after →
      Stands least expr reader.place after.place ∧ after.depth = depth
  /-- So is what an operand is made of. -/
  binary : ∀ {least : Nat} {reader after : Reader} {expr : Expr}, reader.depth = depth →
    grammar.binary least reader = .ok expr after → Stands least expr reader.place after.place
  /-- The tree of a row is continued if no operator comes next that binds more tightly than one of
  the row. -/
  chain : ∀ {least : Nat} {reader after : Reader} {left expr : Expr}, reader.depth = depth →
    grammar.chain least left reader = .ok expr after →
      ∀ {first : Expr} {before : List (BinaryOp × Expr)} {c : Cursor},
        Row first before c reader.place → Groups first before left →
        (∀ item ∈ before, least ≤ item.1.precedence ∧
          reader.place.Lacks (Token.Binds (item.1.precedence + 1))) →
          Stands least expr c after.place

/-- The operators and operands that continue an expression continue the tree of a row. -/
theorem Climbs.chainBody {inner : Grammar Reading} {depth least : Nat} (climbs : inner.Climbs (depth + 1))
    {left expr : Expr} (deep : reader.depth = depth)
    (run : chainBody inner least left reader = .ok expr after) {first : Expr}
    {before : List (BinaryOp × Expr)} {c : Cursor} (row : Row first before c reader.place)
    (groups : Groups first before left) (tight : ∀ item ∈ before, least ≤ item.1.precedence ∧
      reader.place.Lacks (Token.Binds (item.1.precedence + 1))) :
    Stands least expr c after.place := by
  obtain ⟨found, between, next, run⟩ := bind_eq_ok.mp run
  obtain ⟨sign, rest, tokens_eq, -, ⟨rfl, loose, same⟩ | ⟨op, rfl, isOp, binds, rfl⟩⟩ :=
    operator?_eq_ok next
  · cases run
    rw [same]
    refine ⟨⟨first, before, row, groups, fun item mem => (tight item mem).1⟩, ?_⟩
    rw [Reader.place, tokens_eq, lacks_cons]
    exact loose
  · obtain ⟨_, between, checked, run⟩ := bind_eq_ok.mp run
    obtain rfl := checkOperand_eq_ok checked
    obtain ⟨_, between, deepened, run⟩ := bind_eq_ok.mp run
    obtain rfl := deepen_eq_ok deepened
    obtain ⟨right, between, run, run'⟩ := bind_eq_ok.mp run
    obtain ⟨⟨⟨second, after', row', groups', tight'⟩, loose⟩, deep'⟩ :=
      climbs.operand (congrArg Nat.succ deep) run
    have signed : Step (.symbol op.symbol) sign reader.place ⟨rest, sign.position⟩ := by
      rw [Reader.place, tokens_eq]
      exact .next (BinaryOp.eq_of_ofKind? isOp)
    -- the operator binds no more tightly than those before it, and more loosely than those behind it
    have loosest : ∀ item ∈ before, op.precedence ≤ item.1.precedence := by
      intro item mem
      refine Nat.le_of_not_lt fun tighter => ?_
      exact (tight item mem).2 sign signed.next?_eq ⟨op, isOp, tighter⟩
    refine climbs.chain deep' run' (row.append signed row') (.split groups groups' loosest tight') ?_
    have further (item : BinaryOp × Expr) (above : op.precedence ≤ item.1.precedence) :
        least ≤ item.1.precedence ∧ between.place.Lacks (Token.Binds (item.1.precedence + 1)) :=
      ⟨Nat.le_trans binds above, loose.binds_mono (Nat.succ_le_succ above)⟩
    rw [forall_mem_append, forall_mem_cons]
    exact ⟨fun item mem => further item (loosest item mem), further _ (Nat.le_refl _),
      fun item mem => further item (Nat.le_of_succ_le (tight' item mem))⟩

/-- A grammar groups rows by precedence if the grammar of the next depth does. -/
theorem climbs_around {levels depth : Nat} (total : depth + levels = maxDepth)
    (climbs : (ofLevels levels).Climbs (depth + 1)) : (ofLevels (levels + 1)).Climbs depth where
  operand deep run := by
    obtain ⟨_, nested, rfl⟩ := restoringDepth_eq_ok.mp run
    obtain ⟨_, _, deepened, nested⟩ := bind_eq_ok.mp nested
    obtain rfl := deepen_eq_ok deepened
    have stands := climbs.binary (congrArg Nat.succ deep) nested
    exact ⟨stands, deep⟩
  binary {least reader after expr} deep run := by
    obtain ⟨_, body, rfl⟩ := restoringDepth_eq_ok.mp run
    obtain ⟨first, _, begun, continued⟩ := bind_eq_ok.mp body
    -- an operator is looked for behind the first operand, so a token comes next there
    obtain ⟨_, _, looked, -⟩ := bind_eq_ok.mp continued
    obtain ⟨next, rest, tokens_eq, well, -⟩ := operator?_eq_ok looked
    obtain ⟨read, deep'⟩ := readsPostfixed_of_run (deep ▸ total) begun tokens_eq well
    have stands := climbs.chainBody (deep'.trans deep) continued (.single read) .single
      (forall_mem_nil _)
    exact stands
  chain deep run := climbs.chainBody deep run

theorem climbs_ofLevels (levels depth : Nat) (total : depth + levels = maxDepth + 1) :
    (ofLevels levels).Climbs depth := by
  induction levels generalizing depth with
  | zero => exact ⟨fun _ run => (nomatch run), fun _ run => (nomatch run), fun _ run => (nomatch run)⟩
  | succ levels ih => exact climbs_around (by omega) (ih (depth + 1) (by omega))

/-- An expression that is read, however deeply it is nested, stands as a row of expressions without
operators, with operators between them, and no operator follows it. Of the row that starts there and
that no operator follows, the expression is the tree, and the only one. In the order of precedence
comparisons come first, products and quotients last. -/
theorem groups_of_expr {levels : Nat} {reader after : Reader} {expr : Expr}
    (total : reader.depth + levels = maxDepth)
    (run : ((ofLevels (levels + 1)).expr : Reading _) reader = .ok expr after) :
    (∃ first rest, Row first rest reader.place after.place ∧ after.place.Lacks Token.IsOperator) ∧
    (∀ first rest place, Row first rest reader.place place → place.Lacks Token.IsOperator →
      place = after.place ∧ Groups first rest expr ∧ ∀ tree, Groups first rest tree → tree = expr) ∧
    ∀ op op' : BinaryOp, op.precedence < op'.precedence ↔
      op.isComparison = true ∧ op'.isComparison = false ∨
        op ∈ [.add, .sub] ∧ op' ∈ [.mul, .div] := by
  have climbs := climbs_ofLevels (levels + 1) reader.depth (congrArg Nat.succ total)
  obtain ⟨⟨⟨first, rest, row, groups, -⟩, stops⟩, -⟩ := climbs.operand rfl run
  have ends : after.place.Lacks Token.IsOperator := fun token found isOp =>
    stops token found (token.binds_one_iff.mpr isOp)
  refine ⟨⟨first, rest, row, ends⟩, fun first' rest' place row' ends' => ?_,
    BinaryOp.precedence_lt_iff⟩
  obtain ⟨rfl, rfl, rfl⟩ := row.unique ends row' ends'
  exact ⟨rfl, groups, fun tree => groups.unique⟩

deriving instance DecidableEq for EStateM.Result

/-- The tree of a comparison of differences, of which the first takes off a product. -/
def differences : Expr :=
  .binary .lt
    (.binary .sub
      (.binary .sub (.int "8" ⟨1, 1⟩)
        (.binary .mul (.int "4" ⟨1, 5⟩) (.int "2" ⟨1, 9⟩) ⟨1, 5⟩) ⟨1, 1⟩)
      (.int "1" ⟨1, 13⟩) ⟨1, 1⟩)
    (.int "5" ⟨1, 17⟩) ⟨1, 1⟩

/-- Of two differences the last is the root, below a comparison and above a product. -/
theorem groups_of_expr_differences :
    ∃ first rest place,
      Row first rest (Reader.ofTokens (Token.scan "8 - 4 * 2 - 1 < 5")).place place ∧
        place.Lacks Token.IsOperator ∧ Groups first rest differences := by
  have read : (outermost.expr : Reading _) (Reader.ofTokens (Token.scan "8 - 4 * 2 - 1 < 5")) =
      .ok differences ⟨[⟨.endOfFile, "", ⟨1, 18⟩⟩], ⟨1, 17⟩, 0⟩ := by decide +kernel
  obtain ⟨⟨first, rest, row, ends⟩, unique, -⟩ := groups_of_expr (Nat.zero_add maxDepth) read
  exact ⟨first, rest, _, row, ends, (unique first rest _ row ends).2.1⟩

end Grammar

end ClassLang
