import Mathlib
import ClassLang.Proofs.Grammar.Statement
import ClassLang.Syntax.Equality

/-! # Reading programs by the grammar

The readings of declarations match their productions, so a complete text is read as a program exactly
if it spells the program, with at most as many levels of nesting as the limit allows. -/

namespace ClassLang

open Cursor Reading

namespace Grammar

variable {levels depth : Nat} {c₀ c₁ : Cursor}

/-! ## Declarations -/

/-- Further parameters are parameters behind commas. -/
theorem repeated_params {params : List Param} :
    Repeated (Behind (.symbol .comma) fun param => Derives levels (.param param)) params c₀ c₁ ↔
      Derives levels (.furtherParams params) c₀ c₁ :=
  repeated_iff (fun params => Derives levels (.furtherParams params)) .noFurtherParams
    (fun ⟨_, _, separates, first⟩ further => .furtherParams separates first further)
    (fun | .noFurtherParams => rfl)
    (fun | .furtherParams separates first further => ⟨_, ⟨_, _, separates, first⟩, further⟩)

theorem repeated_members {members : List Member} :
    Repeated (fun member => Derives levels (.member member)) members c₀ c₁ ↔
      Derives levels (.members members) c₀ c₁ :=
  repeated_iff (fun members => Derives levels (.members members)) .noMembers .members
    (fun | .noMembers => rfl) (fun | .members first further => ⟨_, first, further⟩)

theorem repeated_classes {decls : List ClassDecl} :
    Repeated (fun decl => Derives levels (.classDecl decl)) decls c₀ c₁ ↔
      Derives levels (.classes decls) c₀ c₁ :=
  repeated_iff (fun decls => Derives levels (.classes decls)) .noClasses .classes
    (fun | .noClasses => rfl) (fun | .classes first further => ⟨_, first, further⟩)

/-- The parameters of a method, behind the parenthesis that opens them. -/
def RestOfParams (levels : Nat) : Rule (List Param) := fun params c₀ c₁ =>
  (∃ closing, params = [] ∧ Step (.symbol .rightParen) closing c₀ c₁) ∨
    ∃ first further c c' closing, params = first :: further ∧ Derives levels (.param first) c₀ c ∧
      Derives levels (.furtherParams further) c c' ∧ Step (.symbol .rightParen) closing c' c₁

/-- Parameters announced by a parenthesis are the parameters of a method. -/
theorem derives_params_of_announced {found : Option (List Param)}
    (announced : Announced (.symbol .leftParen) (RestOfParams levels) found c₀ c₁) :
    Derives levels (.params (found.getD [])) c₀ c₁ := by
  obtain ⟨_, _, _, rfl, opens, ⟨_, rfl, closes⟩ | ⟨_, _, _, _, _, rfl, first, further, closes⟩⟩ |
    ⟨rfl, -, rfl⟩ := announced
  · exact .emptyParams opens closes
  · exact .params opens first further closes
  · exact .noParams

/-- The parameters of a method are announced by a parenthesis, if none opens behind them. -/
theorem exists_announced_params {params : List Param} (derived : Derives levels (.params params) c₀ c₁)
    (stops : c₁.Lacks fun token => token.kind = .symbol .leftParen) :
    ∃ found, params = found.getD [] ∧
      Announced (.symbol .leftParen) (RestOfParams levels) found c₀ c₁ := by
  cases derived with
  | noParams => exact ⟨none, rfl, .inr ⟨rfl, stops, rfl⟩⟩
  | emptyParams opens closes => exact ⟨some [], rfl, .inl ⟨_, _, _, rfl, opens, .inl ⟨_, rfl, closes⟩⟩⟩
  | params opens first further closes =>
    exact ⟨some _, rfl,
      .inl ⟨_, _, _, rfl, opens, .inr ⟨_, _, _, _, _, rfl, first, further, closes⟩⟩⟩

/-- The statements run for a new object, behind the word that announces them. -/
def RestOfInitBlock (levels : Nat) : Rule (List Stmt) := fun stmts c₀ c₄ =>
  ∃ isWord endWord c₁ c₂ c₃, Step (.keyword .isWord) isWord c₀ c₁ ∧
    Derives levels (.statements stmts) c₁ c₂ ∧ Step (.keyword .endWord) endWord c₂ c₃ ∧
      Derives levels .semicolon c₃ c₄

/-- Statements announced by the word `this` are run for a new object. -/
theorem derives_initBlock_of_announced {found : Option (List Stmt)}
    (announced : Announced (.keyword .thisWord) (RestOfInitBlock levels) found c₀ c₁) :
    Derives levels (.initBlock (found.getD [])) c₀ c₁ := by
  obtain ⟨_, _, _, rfl, worded, _, _, _, _, _, marked, run, closes, ends⟩ | ⟨rfl, -, rfl⟩ := announced
  · exact .initBlock worded marked run closes ends
  · exact .noInitBlock

/-- The statements run for a new object are announced by the word `this`, if it does not come behind
them. -/
theorem exists_announced_initBlock {stmts : List Stmt}
    (derived : Derives levels (.initBlock stmts) c₀ c₁)
    (stops : c₁.Lacks fun token => token.kind = .keyword .thisWord) :
    ∃ found, stmts = found.getD [] ∧
      Announced (.keyword .thisWord) (RestOfInitBlock levels) found c₀ c₁ := by
  cases derived with
  | noInitBlock => exact ⟨none, rfl, .inr ⟨rfl, stops, rfl⟩⟩
  | initBlock worded marked run closes ends =>
    exact ⟨some stmts, rfl, .inl ⟨_, _, _, rfl, worded, _, _, _, _, _, marked, run, closes, ends⟩⟩

/-- Where members stand, no statements run for a new object are announced. -/
theorem lacks_this_of_members {members : List Member} {word : Token} {c₂ : Cursor}
    (declared : Derives levels (.members members) c₀ c₁)
    (closes : Step (.keyword .endWord) word c₁ c₂) :
    c₀.Lacks fun token => token.kind = .keyword .thisWord := by
  cases declared with
  | noMembers => exact closes.lacks_kind nofun
  | members first _ =>
    obtain ⟨kind, token, _, step, starts, -⟩ := first.starts_member
    refine step.lacks_kind ?_
    rcases starts with rfl | rfl <;> nofun

section Declarations

variable {grammar : Grammar Reading} (follows : grammar.Follows levels depth)

include follows

/-- A parameter is read by its production. -/
theorem matches_param : Matches grammar.param depth fun param => Derives levels (.param param) := by
  refine Matches.congr (matches_name_bind fun name => (matches_expect (.symbol .colon) nofun).bind
    fun _ => follows.type.bind fun type => matches_pure (⟨name.text, type, name.position⟩ : Param))
      fun param c₀ c₃ => ?_
  constructor
  · rintro ⟨name, c₁, named, colon, c₂, marked, type, _, typed, rfl, rfl⟩
    exact .param named marked typed
  · intro derived
    cases derived with | param named marked typed
    exact ⟨_, _, named, _, _, marked, _, _, typed, rfl, rfl⟩

/-- The parameters of a method are read behind the parenthesis that opens them. -/
theorem matches_params : Matches grammar.params depth (RestOfParams levels) := by
  refine (matches_listed (.symbol .comma) (.symbol .rightParen) (matches_param follows) ?_ nofun nofun
    nofun).congr fun params c₀ c₁ => ?_
  · intro param c₀ c₁ derived
    exact derived.starts_param.mono (by rintro _ rfl; nofun)
  · simp only [RestOfParams, repeated_params]

/-- A method is read by its production. -/
theorem matches_method :
    Matches grammar.method depth fun method => Derives levels (.method method) := by
  refine Matches.congr ((matches_expect (.keyword .methodWord) nofun).bind fun word =>
    matches_name_bind fun name => (matches_optional (.symbol .leftParen) nofun
      (matches_params follows)).bind fun params =>
        (matches_optional (.symbol .colon) nofun follows.type).bind fun result =>
          (matches_expect (.keyword .isWord) nofun).bind fun _ =>
            (matches_statements follows.statement fun kind => by simp +contextual).bind fun body =>
              (matches_expect (.keyword .endWord) nofun).bind fun _ => matches_pure
                (⟨name.text, params.getD [], result, body, word.position⟩ : Method))
    fun method c₀ c₇ => ?_
  constructor
  · rintro ⟨word, c₁, worded, name, c₂, named, params, c₃, taking, result, c₄, returning, isWord, c₅,
      marked, body, c₆, ⟨run, -⟩, endWord, _, closes, rfl, rfl⟩
    refine .method worded named (derives_params_of_announced taking) ?_ marked run closes
    obtain ⟨_, _, _, rfl, marked, typed⟩ | ⟨rfl, -, rfl⟩ := returning
    · exact .result marked typed
    · exact .noResult
  · intro derived
    cases derived with | method worded named taking returning marked run closes
    -- neither a result nor the word behind it can be taken for parameters
    cases returning with
    | noResult =>
      obtain ⟨found, rfl, announced⟩ := exists_announced_params taking (marked.lacks_kind nofun)
      exact ⟨_, _, worded, _, _, named, found, _, announced, none, _,
        .inr ⟨rfl, marked.lacks_kind nofun, rfl⟩, _, _, marked, _, _, ⟨run, closes.nextEnds rfl⟩, _,
        _, closes, rfl, rfl⟩
    | result colon typed =>
      obtain ⟨found, rfl, announced⟩ := exists_announced_params taking (colon.lacks_kind nofun)
      exact ⟨_, _, worded, _, _, named, found, _, announced, some _, _,
        .inl ⟨_, _, _, rfl, colon, typed⟩, _, _, marked, _, _, ⟨run, closes.nextEnds rfl⟩, _, _,
        closes, rfl, rfl⟩

/-- A member is read by its production. -/
theorem matches_member :
    Matches grammar.member depth fun member => Derives levels (.member member) := by
  intro cursor complete
  obtain ⟨token, rest, last, rfl, well⟩ := exists_next complete
  have first : ∀ {kind place}, Starts (· = kind) ⟨token :: rest, last⟩ place → token.kind = kind := by
    rintro _ place ⟨_, _, _, step, rfl, -⟩
    exact (step_cons.mp step).1
  refine .bind_look token (peek_reader well) ?_
  split
  · rename_i kind
    refine MatchesAt.congr (((matches_binding (follows.operand 1)).map Member.field).bind (fun member =>
      (matches_semicolon levels).bind fun _ => matches_pure member) _ complete)
        fun member place => ⟨?_, fun derived => ?_⟩
    · rintro ⟨_, _, ⟨field, bound, rfl⟩, _, _, ends, rfl, rfl⟩
      exact .field bound ends
    · cases derived with
      | field bound ends => exact ⟨_, _, ⟨_, bound, rfl⟩, (), _, ends, rfl, rfl⟩
      | memberMethod declared _ => exact nomatch kind.symm.trans (first declared.starts_method)
  · rename_i kind
    refine MatchesAt.congr (((matches_method follows).map Member.method).bind (fun member =>
      (matches_semicolon levels).bind fun _ => matches_pure member) _ complete)
        fun member place => ⟨?_, fun derived => ?_⟩
    · rintro ⟨_, _, ⟨method, declared, rfl⟩, _, _, ends, rfl, rfl⟩
      exact .memberMethod declared ends
    · cases derived with
      | field bound _ => exact nomatch kind.symm.trans (first bound.starts_binding)
      | memberMethod declared ends => exact ⟨_, _, ⟨_, declared, rfl⟩, (), _, ends, rfl, rfl⟩
  · rename_i noVar noMethod
    refine .of_error rfl fun member place derived => ?_
    cases derived with
    | field bound _ => exact noVar (first bound.starts_binding)
    | memberMethod declared _ => exact noMethod (first declared.starts_method)

/-- The statements run for a new object are read behind the word that announces them. -/
theorem matches_initBlock : Matches grammar.initBlock depth (RestOfInitBlock levels) := by
  refine Matches.congr ((matches_expect (.keyword .isWord) nofun).bind fun _ =>
    (matches_statements follows.statement fun kind => by simp +contextual).bind fun body =>
      (matches_expect (.keyword .endWord) nofun).bind fun _ =>
        (matches_semicolon levels).bind fun _ => matches_pure body) fun stmts c₀ c₄ => ?_
  constructor
  · rintro ⟨isWord, c₁, marked, _, c₂, ⟨run, -⟩, endWord, c₃, closes, _, _, ends, rfl, rfl⟩
    exact ⟨isWord, endWord, c₁, c₂, c₃, marked, run, closes, ends⟩
  · rintro ⟨isWord, endWord, c₁, c₂, c₃, marked, run, closes, ends⟩
    exact ⟨isWord, c₁, marked, stmts, c₂, ⟨run, closes.nextEnds rfl⟩, endWord, c₃, closes, (), c₄, ends,
      rfl, rfl⟩

/-- A class is read by its production. -/
theorem matches_classDecl :
    Matches grammar.classDecl depth fun decl => Derives levels (.classDecl decl) := by
  have starts : ∀ {member c₀ c₁}, Derives levels (.member member) c₀ c₁ →
      Starts (fun kind => decide (kind = .keyword .endWord) = false) c₀ c₁ := by
    intro member c₀ c₁ derived
    exact derived.starts_member.mono (by rintro _ (rfl | rfl) <;> rfl)
  have based : Matches (do return (← name).1) depth
      fun base c₀ c₁ => ∃ token, Step .identifier token c₀ c₁ ∧ base = token.text := by
    refine (matches_name_bind fun token => matches_pure token.text).congr fun base c₀ c₁ => ?_
    constructor
    · rintro ⟨token, _, named, rfl, rfl⟩
      exact ⟨token, named, rfl⟩
    · rintro ⟨token, named, rfl⟩
      exact ⟨token, c₁, named, rfl, rfl⟩
  refine Matches.congr ((matches_expect (.keyword .classWord) nofun).bind fun word =>
    matches_name_bind fun name => (matches_optional (.keyword .extendsWord) nofun based).bind fun base =>
      (matches_expect (.keyword .isWord) nofun).bind fun _ =>
        (matches_optional (.keyword .thisWord) nofun (matches_initBlock follows)).bind fun init =>
          (matches_manyUntil (matches_member follows) starts).bind fun members =>
            (matches_expect (.keyword .endWord) nofun).bind fun _ =>
              (matches_semicolon levels).bind fun _ => matches_pure
                (⟨name.text, base, init.getD [], members, word.position⟩ : ClassDecl))
    fun decl c₀ c₈ => ?_
  constructor
  · rintro ⟨word, c₁, worded, name, c₂, named, base, c₃, extending, isWord, c₄, marked, init, c₅, setUp,
      members, c₆, ⟨declared, -⟩, endWord, c₇, closes, _, _, ends, rfl, rfl⟩
    refine .classDecl worded named ?_ marked (derives_initBlock_of_announced setUp)
      (repeated_members.mp declared) closes ends
    obtain ⟨_, _, _, rfl, extends_, _, named, rfl⟩ | ⟨rfl, -, rfl⟩ := extending
    · exact .base extends_ named
    · exact .noBase
  · intro derived
    cases derived with | classDecl worded named extending marked setUp declared closes ends
    -- members do not start with the word `this`, so where they stand no statements are announced
    obtain ⟨init, rfl, announced⟩ :=
      exists_announced_initBlock setUp (lacks_this_of_members declared closes)
    have members := repeated_members.mpr declared
    cases extending with
    | noBase =>
      exact ⟨_, _, worded, _, _, named, none, _, .inr ⟨rfl, marked.lacks_kind nofun, rfl⟩, _, _,
        marked, init, _, announced, _, _, ⟨members, closes.nextEnds rfl⟩, _, _, closes, (), _, ends,
        rfl, rfl⟩
    | base extending named' =>
      exact ⟨_, _, worded, _, _, named, some _, _, .inl ⟨_, _, _, rfl, extending, _, named', rfl⟩, _,
        _, marked, init, _, announced, _, _, ⟨members, closes.nextEnds rfl⟩, _, _, closes, (), _, ends,
        rfl, rfl⟩

end Declarations

end Grammar

namespace Program

variable {tokens : List Token} {program : Program}

/-- A list of tokens is read as a program if the outermost grammar reads it so. -/
theorem ofTokens_eq_ok : ofTokens tokens = .ok program ↔
    ∃ after, (Grammar.outermost.program : Reading _) (Reader.ofTokens tokens) = .ok program after := by
  unfold ofTokens
  cases (Grammar.outermost.program : Reading _) (Reader.ofTokens tokens) <;> simp

/-- A complete text is read as a program exactly if it spells the program by the grammar, with no
more levels of nesting than the limit. -/
theorem ofTokens_eq_ok_iff_spells (complete : Token.Complete tokens) :
    ofTokens tokens = .ok program ↔ program.Spells maxDepth tokens := by
  have follows : Grammar.outermost.Follows maxDepth 0 :=
    Grammar.follows_ofLevels maxDepth 0 (Nat.zero_add maxDepth)
  have starts : ∀ {decl c₀ c₁}, Derives maxDepth (.classDecl decl) c₀ c₁ →
      Starts (fun kind => decide (kind = .endOfFile) = false) c₀ c₁ := by
    intro decl c₀ c₁ derived
    exact derived.starts_classDecl.mono (by rintro _ rfl; rfl)
  have classes := matches_manyUntil (Grammar.matches_classDecl follows) starts
    ⟨tokens, Position.start⟩ complete
  rw [ofTokens_eq_ok]
  constructor
  · rintro ⟨after, run⟩
    obtain ⟨decls, between, run, run'⟩ := bind_eq_ok.mp run
    obtain ⟨place, holds, rfl⟩ := classes.ok_iff.mp run
    obtain ⟨_, _, -, ⟨⟩⟩ := bind_eq_ok.mp run'
    have complete := (classes.passes holds).complete complete
    obtain ⟨repeated, token, found, ends⟩ := holds
    obtain ⟨next, rest, last, rfl, -⟩ := exists_next complete
    obtain rfl := Option.some_inj.mp found
    -- the classes end before the end of the text, behind which nothing comes
    have ends := of_decide_eq_true ends
    obtain rfl := complete.eq_nil ends
    exact ⟨_, next, _, Grammar.repeated_classes.mp repeated, .next ends⟩
  · rintro ⟨last, ending, cursor, derived, step⟩
    have repeated := Grammar.repeated_classes.mpr derived
    have run := classes.ok_iff.mpr ⟨cursor, ⟨repeated, step.nextEnds rfl⟩, rfl⟩
    obtain ⟨ends⟩ := step
    rename_i before
    have well : ending.kind ≠ .malformed := by
      rw [ends]
      nofun
    have run' := expect_cons well [] before 0
    rw [ends] at run'
    exact ⟨_, bind_eq_ok.mpr ⟨_, _, run, bind_eq_ok.mpr ⟨_, _, run', rfl⟩⟩⟩

/-- A method in which a parenthesis starts the line behind a call. -/
def parenthesisOnNextLine : List Token :=
  [⟨.keyword .classWord, "class", ⟨1, 1⟩⟩, ⟨.identifier, "A", ⟨1, 7⟩⟩,
   ⟨.keyword .isWord, "is", ⟨1, 9⟩⟩, ⟨.keyword .methodWord, "method", ⟨2, 1⟩⟩,
   ⟨.identifier, "m", ⟨2, 8⟩⟩, ⟨.keyword .isWord, "is", ⟨2, 10⟩⟩, ⟨.identifier, "f", ⟨3, 1⟩⟩,
   ⟨.symbol .leftParen, "(", ⟨3, 2⟩⟩, ⟨.integer, "1", ⟨3, 3⟩⟩, ⟨.symbol .rightParen, ")", ⟨3, 4⟩⟩,
   ⟨.symbol .leftParen, "(", ⟨4, 1⟩⟩, ⟨.integer, "2", ⟨4, 2⟩⟩, ⟨.symbol .rightParen, ")", ⟨4, 3⟩⟩,
   ⟨.symbol .plus, "+", ⟨4, 5⟩⟩, ⟨.integer, "3", ⟨4, 7⟩⟩, ⟨.keyword .endWord, "end", ⟨5, 1⟩⟩,
   ⟨.keyword .endWord, "end", ⟨6, 1⟩⟩, ⟨.endOfFile, "", ⟨6, 4⟩⟩]

/-- The parenthesis on the next line starts a statement of its own, and the sum in it stands where its
left operand does. -/
theorem spells_parenthesisOnNextLine :
    Token.Complete parenthesisOnNextLine ∧
      Spells maxDepth parenthesisOnNextLine ⟨[⟨"A", none, [], [.method ⟨"m", [], none,
        [.eval (.call (.ident "f" [] ⟨3, 1⟩) [.int "1" ⟨3, 3⟩] ⟨3, 1⟩) ⟨3, 1⟩,
          .eval (.binary .add (.int "2" ⟨4, 2⟩) (.int "3" ⟨4, 7⟩) ⟨4, 2⟩) ⟨4, 1⟩], ⟨2, 1⟩⟩],
        ⟨1, 1⟩⟩]⟩ := by
  have complete : Token.Complete parenthesisOnNextLine :=
    ⟨parenthesisOnNextLine.dropLast, ⟨.endOfFile, "", ⟨6, 4⟩⟩, rfl, rfl, by decide⟩
  exact ⟨complete, (ofTokens_eq_ok_iff_spells complete).mp (by decide +kernel)⟩

end Program

end ClassLang
