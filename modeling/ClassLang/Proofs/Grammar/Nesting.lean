import ClassLang.Proofs.Grammar.Consumption
import ClassLang.Proofs.Printing.Source
import ClassLang.Syntax.Equality
import Mathlib.Control.Monad.Basic

/-! # How deep programs are nested

Statements, expressions and types are the nodes of a program, and a path leads from a node down
through its parts. The limit on nesting bounds how often a path enters a part that stands behind the
beginning of its node: a right operand, an argument, a statement, a type. A part with which its node
begins is another matter. A left operand takes no level of its own, since only the operators of one
chain are counted, and so the levels add up along it. What a member is selected from and what is
called are not counted at all: a path through them can be as long as a text. -/

namespace ClassLang

open Reading List Word ClassDecl Cursor

/-! ## Paths -/

/-- A node of a program. -/
inductive Node where
  | type (type : TypeRef)
  | expr (expr : Expr)
  | stmt (stmt : Stmt)

/-- How a node is part of another one. -/
inductive Edge where
  | left
  | right
  /-- What a member is selected from, or what is called. -/
  | subject
  /-- Any other part. -/
  | inner
  deriving DecidableEq, Repr

/-- Parts that are neither operands nor subjects. -/
def Node.innerParts (nodes : List Node) : List (Edge × Node) := nodes.map (Prod.mk .inner)

/-- The parts of a node. -/
def Node.parts : Node → List (Edge × Node)
  | .type ref => innerParts (ref.arguments.map .type)
  | .expr (.ident _ arguments _) => innerParts (arguments.map .type)
  | .expr (.binary _ left right _) => [(.left, .expr left), (.right, .expr right)]
  | .expr (.member target _ _) => [(.subject, .expr target)]
  | .expr (.call callee arguments _) => (.subject, .expr callee) :: innerParts (arguments.map .expr)
  | .expr (.self _) | .expr (.int ..) | .expr (.real ..) | .expr (.bool ..) => []
  | .stmt (.declare _ init _) => innerParts [.expr init]
  | .stmt (.assign target value _) => innerParts [.expr target, .expr value]
  | .stmt (.branch test body alternative _) =>
    innerParts (.expr test :: (body ++ alternative.getD []).map .stmt)
  | .stmt (.loop test body _) => innerParts (.expr test :: body.map .stmt)
  | .stmt (.ret value _) | .stmt (.eval value _) => innerParts [.expr value]
  | .stmt (.leave _) => []

/-- A path from a node down to one of its parts, their parts and so on. -/
inductive Node.Path : Node → List Edge → Prop
  | here {node} : Path node []
  | down {node part edge edges} (below : (edge, part) ∈ node.parts)
      (path : Path part edges) : Path node (edge :: edges)

/-- The outermost nodes of a member. -/
def Member.roots : Member → List Node
  | .field decl => [.expr decl.init]
  | .method decl =>
    decl.params.map (fun param => .type param.type) ++
      (decl.result.toList.map .type ++ decl.body.map .stmt)

/-- The outermost nodes of a class. -/
def ClassDecl.roots (decl : ClassDecl) : List Node :=
  decl.init.map .stmt ++ decl.members.flatMap Member.roots

/-- The outermost nodes of a program. -/
def Program.roots (program : Program) : List Node := program.classes.flatMap ClassDecl.roots

/-! ## Bounds on paths -/

namespace Node

variable {node : Node} {levels levels' size size' : Nat}

/-- Whether paths stay within a number of levels and a number of nodes. Left operands and subjects
take no level, right operands take two, and subjects are not among the nodes. -/
def Within (levels size : Nat) (node : Node) : Prop :=
  ∀ edges, node.Path edges →
    edges.length + 1 + edges.count .right ≤ levels + edges.count .left + edges.count .subject ∧
      edges.length + 1 ≤ size + edges.count .subject

theorem Within.mono (within : node.Within levels size) (fewer : levels ≤ levels')
    (smaller : size ≤ size') : node.Within levels' size' := by
  intro edges path
  have bounds := within edges path
  omega

theorem Within.levels_pos (within : node.Within levels size) : 0 < levels := (within [] .here).1

/-- How many levels are left below an edge. -/
def levelsBelow (levels : Nat) : Edge → Nat
  | .left | .subject => levels
  | .right => levels - 2
  | .inner => levels - 1

/-- How many nodes are left below an edge. -/
def sizeBelow (size : Nat) : Edge → Nat
  | .subject => size
  | .left | .right | .inner => size - 1

/-- The paths from a node are bounded if those from its parts are. -/
theorem within_of_parts (levels_pos : 0 < levels) (size_pos : 0 < size)
    (below : ∀ edge part, (edge, part) ∈ node.parts →
      part.Within (levelsBelow levels edge) (sizeBelow size edge)) : node.Within levels size := by
  intro edges path
  cases path with
  | here => exact ⟨levels_pos, size_pos⟩
  | @down _ part edge edges part_mem path =>
    have within := below edge part part_mem
    -- what is left below an edge is taken from what there is, since the part itself needs a level
    have left_over := within.levels_pos
    obtain ⟨levels_le, size_le⟩ := within edges path
    cases edge <;> simp [levelsBelow, sizeBelow] at left_over levels_le size_le ⊢ <;> omega

/-- A node takes up a level and a node more than its inner parts, if it has no others. -/
theorem within_of_innerParts {nodes : List Node} (eq : node.parts = innerParts nodes)
    (each : ∀ part ∈ nodes, part.Within levels size) : node.Within (levels + 1) (size + 1) := by
  refine within_of_parts levels.succ_pos size.succ_pos fun edge part mem => ?_
  rw [eq] at mem
  obtain ⟨_, found, ⟨⟩⟩ := mem_map.mp mem
  exact each part found

theorem within_of_leaf (leaf : node.parts = []) : node.Within (levels + 1) (size + 1) :=
  within_of_parts levels.succ_pos size.succ_pos (by rw [leaf]; nofun)

/-- The most nodes on a path through levels, subjects apart. In each level a path goes down the left
operands of a chain, whose last operator leaves one level for the operand behind it. -/
def mostNodes : Nat → Nat
  | 0 => 0
  | levels + 1 => mostNodes levels + 1 + (levels - 1)

/-- Whether the paths from a node fit into a number of levels. -/
def Fits (levels : Nat) (node : Node) : Prop := node.Within levels (mostNodes levels)

theorem mostNodes_le_succ (levels : Nat) : mostNodes levels + 1 ≤ mostNodes (levels + 1) :=
  Nat.le_add_right _ _

theorem Within.fits (within : node.Within (levels + 1) (mostNodes levels + 1)) :
    node.Fits (levels + 1) :=
  within.mono (Nat.le_refl _) (mostNodes_le_succ levels)

/-- An operator takes up a node more than its left operand, and two levels more than its right one. -/
theorem within_binary (op : BinaryOp) {left right : Expr} (position : Position)
    (within : (expr left).Within levels size) (within' : (expr right).Within levels' size')
    (fewer : levels' + 2 ≤ levels) (smaller : size' ≤ size) :
    (expr (.binary op left right position)).Within levels (size + 1) := by
  refine within_of_parts within.levels_pos size.succ_pos fun edge part mem => ?_
  simp only [parts, mem_cons, not_mem_nil, or_false, Prod.mk.injEq] at mem
  obtain ⟨rfl, rfl⟩ | ⟨rfl, rfl⟩ := mem
  · exact within
  · exact within'.mono (Nat.le_sub_of_add_le fewer) smaller

/-- A member takes up no more than what it is selected from. -/
theorem within_member {target : Expr} (name : String) (position : Position)
    (within : (expr target).Within levels size) :
    (expr (.member target name position)).Within levels size := by
  refine within_of_parts within.levels_pos (within [] .here).2 fun edge part mem => ?_
  simp only [parts, mem_singleton, Prod.mk.injEq] at mem
  obtain ⟨rfl, rfl⟩ := mem
  exact within

/-- A call takes up no more than what is called, and a level and a node more than its arguments. -/
theorem within_call {callee : Expr} {arguments : List Expr} (position : Position)
    (within : (expr callee).Within (levels + 1) (size + 1))
    (each : ∀ argument ∈ arguments, (expr argument).Within levels size) :
    (expr (.call callee arguments position)).Within (levels + 1) (size + 1) := by
  refine within_of_parts levels.succ_pos size.succ_pos fun edge part mem => ?_
  simp only [parts, innerParts, mem_cons, mem_map, Prod.mk.injEq] at mem
  obtain ⟨rfl, rfl⟩ | ⟨_, ⟨argument, found, rfl⟩, rfl, rfl⟩ := mem
  · exact within
  · exact each argument found

end Node

/-! ## Phrases -/

open Node

/-- Whether the nodes of a phrase have room in the levels that it is derived with. What continues an
operand keeps the room of the operand, except that each operator of a chain adds a node. -/
def Phrase.Fits (levels : Nat) : Phrase → Prop
  | .type ref => (Node.type ref).Fits levels
  | .typeArguments types | .furtherTypes types => ∀ ref ∈ types, (Node.type ref).Fits levels
  | .operand _ value => (expr value).Fits levels
  | .binary _ value => (expr value).Fits (levels + 1)
  | .chain _ first value => ∀ outer size, levels < outer → mostNodes levels < size →
      (expr first).Within outer size → (expr value).Within outer (size + (levels - 1))
  | .postfixed value | .primary value => (expr value).Within (levels + 1) (mostNodes levels + 1)
  | .suffixes subject value => (expr subject).Within (levels + 1) (mostNodes levels + 1) →
      (expr value).Within (levels + 1) (mostNodes levels + 1)
  | .callArguments values | .furtherExprs values => ∀ value ∈ values, (expr value).Fits levels
  | .binding decl => (expr decl.init).Fits levels
  | .statement run => (stmt run).Fits levels
  | .statementBody run => (stmt run).Within (levels + 1) (mostNodes levels + 1)
  | .statements block | .initBlock block => ∀ run ∈ block, (stmt run).Fits levels
  | .alternative block => ∀ run ∈ block.getD [], (stmt run).Fits levels
  | .semicolon | .base _ => True
  | .param decl => (Node.type decl.type).Fits levels
  | .furtherParams decls | .params decls => ∀ decl ∈ decls, (Node.type decl.type).Fits levels
  | .result found => ∀ ref ∈ found, (Node.type ref).Fits levels
  | .method decl => ∀ root ∈ (Member.method decl).roots, root.Fits levels
  | .member decl => ∀ root ∈ decl.roots, root.Fits levels
  | .members decls => ∀ decl ∈ decls, ∀ root ∈ decl.roots, root.Fits levels
  | .classDecl decl => ∀ root ∈ decl.roots, root.Fits levels
  | .classes decls => ∀ decl ∈ decls, ∀ root ∈ decl.roots, root.Fits levels

/-- What is derived with a number of levels has room in them. -/
theorem Derives.fits {levels : Nat} {phrase : Phrase} {c₀ c₁ : Cursor}
    (derived : Derives levels phrase c₀ c₁) : phrase.Fits levels := by
  induction derived with
  | noTypeArguments | noFurtherTypes | noCallArguments | noFurtherExprs | noAlternative
  | noStatements | noFurtherParams | noParams | emptyParams | noResult | noMembers | noInitBlock
  | noClasses => exact nofun
  | typeArguments _ _ _ _ first further | furtherTypes _ _ _ first further
  | callArguments _ _ _ _ first further | furtherExprs _ _ _ first further
  | statements _ _ first further | furtherParams _ _ _ first further
  | params _ _ _ _ first further | members _ _ first further | classes _ _ first further =>
    exact forall_mem_cons.mpr ⟨first, further⟩
  | operand _ fits | binding _ _ _ _ fits | param _ _ _ fits | memberMethod _ _ fits
  | alternative _ _ fits | initBlock _ _ _ _ _ fits => exact fits
  | semicolon | noSemicolon | base | noBase => trivial
  -- types and expressions
  | type _ _ each => exact (within_of_innerParts rfl (forall_mem_map.mpr each)).fits
  | ident _ _ each => exact within_of_innerParts rfl (forall_mem_map.mpr each)
  | self | int | real | bool => exact within_of_leaf rfl
  | parens _ _ _ inner => exact inner.mono (Nat.le_succ _) (Nat.le_succ _)
  | postfixed _ _ first continues => exact continues first
  | suffixesEnd => exact id
  | member _ _ _ continues => exact fun within => continues (within_member _ _ within)
  | call _ _ _ each continues => exact fun within => continues (within_call _ within each)
  | binary _ _ first continues => exact continues _ _ (Nat.lt_succ_self _) (Nat.lt_succ_self _) first
  | chainEnd => exact fun _ _ _ _ within => within.mono (Nat.le_refl _) (Nat.le_add_right _ _)
  | @chain levels _ _ _ _ _ _ _ _ _ _ _ _ _ _ _ second continues =>
    intro outer size lower fewer within
    -- the right operand needs a level, so the last operator of a chain leaves one
    have some_levels : 0 < levels := second.levels_pos
    have room := mostNodes_le_succ levels
    have reached := continues outer (size + 1) (by omega) (by omega)
      (within_binary _ _ within second lower (by omega))
    exact reached.mono (Nat.le_refl _) (by omega)
  -- statements
  | statement _ _ within => exact within.fits
  | leave => exact within_of_leaf rfl
  | declare _ fits | ret _ _ fits | eval _ _ _ fits =>
    exact within_of_innerParts rfl (forall_mem_singleton.mpr fits)
  | assign _ _ _ _ fits fits' =>
    exact within_of_innerParts rfl (forall_mem_cons.mpr ⟨fits, forall_mem_singleton.mpr fits'⟩)
  | branch _ _ _ _ _ _ fits each each' =>
    refine within_of_innerParts rfl (forall_mem_cons.mpr ⟨fits, ?_⟩)
    exact forall_mem_map.mpr (forall_mem_append.mpr ⟨each, each'⟩)
  | loop _ _ _ _ _ fits each =>
    exact within_of_innerParts rfl (forall_mem_cons.mpr ⟨fits, forall_mem_map.mpr each⟩)
  -- declarations
  | result _ _ fits =>
    rintro ref ⟨⟩
    exact fits
  | field _ _ fits => exact forall_mem_singleton.mpr fits
  | method _ _ _ _ _ _ _ params result body =>
    refine forall_mem_append.mpr ⟨forall_mem_map.mpr params, ?_⟩
    refine forall_mem_append.mpr ⟨forall_mem_map.mpr fun ref found => ?_, ?_⟩
    · exact result ref (Option.mem_toList.mp found)
    · exact forall_mem_map.mpr body
  | classDecl _ _ _ _ _ _ _ _ _ init members =>
    refine forall_mem_append.mpr ⟨forall_mem_map.mpr init, ?_⟩
    exact forall_mem_flatMap.mpr members

namespace Program

variable {text : String} {program : Program}

/-- The nodes of a program that was read have room in the levels that the limit allows. -/
theorem fits_of_ofText (read : ofText text = .ok program) {root : Node}
    (outermost : root ∈ program.roots) : root.Fits maxDepth := by
  obtain ⟨place, derived⟩ := derives_of_ofText read
  obtain ⟨decl, declared, found⟩ := mem_flatMap.mp outermost
  exact derived.fits decl declared root found

/-- In a program that was read, the nodes of a path other than left operands and subjects are no more
than the limit on nesting, even with right operands counted twice. Without its subjects a path has no
more nodes than chains of operators in all levels have together. -/
theorem length_path_of_ofText (read : ofText text = .ok program) {root : Node}
    (outermost : root ∈ program.roots) {edges : List Edge} (path : root.Path edges) :
    edges.length + 1 + edges.count .right ≤ maxDepth + edges.count .left + edges.count .subject ∧
      edges.length + 1 ≤ maxDepth * (maxDepth - 1) / 2 + 1 + edges.count .subject := by
  have most : mostNodes maxDepth = maxDepth * (maxDepth - 1) / 2 + 1 := by decide
  rw [← most]
  exact fits_of_ofText read outermost edges path

/-- The product in the argument of a call. -/
def nestedProduct : Expr :=
  .binary .mul (.call (.ident "g" [] ⟨1, 39⟩) [.member (.self ⟨1, 41⟩) "c" ⟨1, 41⟩] ⟨1, 39⟩)
    (.int "2" ⟨1, 51⟩) ⟨1, 39⟩

/-- A statement that returns the result of a call. -/
def nestedReturn : Stmt :=
  .ret (.call (.member (.ident "a" [] ⟨1, 31⟩) "b" ⟨1, 31⟩)
    [.binary .add (.int "1" ⟨1, 35⟩) nestedProduct ⟨1, 35⟩] ⟨1, 31⟩) ⟨1, 24⟩

/-- A path that goes down to the current object, through an argument, a right operand, a left operand,
another argument and what a member is selected from. -/
theorem length_path_nestedReturn :
    ofText "class A is method m is return a.b(1 + g(this.c) * 2) end end" =
        .ok ⟨[⟨"A", none, [], [.method ⟨"m", [], none, [nestedReturn], ⟨1, 12⟩⟩], ⟨1, 1⟩⟩]⟩ ∧
      (stmt nestedReturn).Path [.inner, .inner, .right, .left, .inner, .subject] ∧
        (6 + 1 + 1 ≤ maxDepth + 1 + 1 ∧ 6 + 1 ≤ maxDepth * (maxDepth - 1) / 2 + 1 + 1) := by
  have read : ofText "class A is method m is return a.b(1 + g(this.c) * 2) end end" =
      .ok ⟨[⟨"A", none, [], [.method ⟨"m", [], none, [nestedReturn], ⟨1, 12⟩⟩], ⟨1, 1⟩⟩]⟩ := by
    decide +kernel
  have path : (stmt nestedReturn).Path [.inner, .inner, .right, .left, .inner, .subject] := by
    refine .down (.head _) (.down (.tail _ (.head _)) (.down (.tail _ (.head _)) ?_))
    exact .down (.head _) (.down (.tail _ (.head _)) (.down (.head _) .here))
  exact ⟨read, path, length_path_of_ofText read (.head _) path⟩

end Program

/-! ## Paths through subjects -/

/-- An expression from which a member is selected a number of times. -/
def Expr.selecting (subject : Expr) : Nat → Expr
  | 0 => subject
  | count + 1 => selecting (.member subject "a" subject.position) count

/-- The words that select a member a number of times. -/
def Word.selections (line : Nat) : Nat → List Word
  | 0 => []
  | count + 1 => symbol line .period :: name line "a" :: selections line count

/-- A class with a field whose value is a member of a member, and so on, of the current object. -/
def Program.selecting (count : Nat) : Program :=
  ⟨[⟨"a", none, [], [.field ⟨"a", Expr.selecting (.self .start) count, .start⟩], .start⟩]⟩

section Selecting

variable {line count : Nat} {words : List Word} {tokens : List Token} {last : Position}

/-- Every selection of a member makes a path longer. -/
theorem Node.path_selecting (count : Nat) {subject : Expr} {edges : List Edge}
    (path : (expr subject).Path edges) :
    (expr (subject.selecting count)).Path (List.replicate count Edge.subject ++ edges) := by
  induction count generalizing subject edges with
  | zero => exact path
  | succ count ih =>
    rw [replicate_succ', append_assoc]
    exact ih (.down mem_cons_self path)

/-- The words of an expression from which a member is selected a number of times. -/
theorem Expr.words_selecting (line count : Nat) (subject : Expr) :
    (subject.selecting count).words line = subject.words line ++ selections line count := by
  induction count generalizing subject with
  | zero => exact (append_nil _).symm
  | succ count ih =>
    rw [Expr.selecting, ih, Expr.words, append_assoc]
    rfl

/-- A word is the first of some tokens. -/
theorem Cursor.exists_step {kind : Kind} {text : String}
    (spelled : tokens.map Token.word = ⟨kind, text, line⟩ :: words) (last : Position) :
    ∃ token rest, token.text = text ∧ Step kind token ⟨tokens, last⟩ ⟨rest, token.position⟩ ∧
      rest.map Token.word = words := by
  obtain ⟨token, rest, rfl, same, others⟩ := map_eq_cons_iff.mp spelled
  exact ⟨token, rest, congrArg Word.text same, .next (congrArg Word.kind same), others⟩

/-- Words that select a member a number of times continue an expression up to a keyword. -/
theorem derives_selecting (levels : Nat) {keyword : Keyword} {line' : Nat} (subject : Expr)
    (spelled : tokens.map Token.word =
      Word.selections line count ++ Word.keyword line' keyword :: words) :
    ∃ rest last', Derives levels (.suffixes subject (subject.selecting count)) ⟨tokens, last⟩
      ⟨rest, last'⟩ ∧ rest.map Token.word = Word.keyword line' keyword :: words := by
  induction count generalizing subject tokens last with
  | zero =>
    obtain ⟨token, _, -, step, -⟩ := exists_step spelled last
    refine ⟨tokens, last, .suffixesEnd (step.lacks_kind nofun) (step.lacks ?_), spelled⟩
    rintro ⟨opens, -⟩
    exact nomatch step.kind_eq.symm.trans opens
  | succ count ih =>
    obtain ⟨point, behind, -, pointed, spelled⟩ := exists_step spelled last
    obtain ⟨name, behind, text, named, spelled⟩ := exists_step spelled point.position
    obtain ⟨rest, last', derived, left⟩ := ih (.member subject "a" subject.position) spelled
    refine ⟨rest, last', .member pointed named ?_, left⟩
    rw [text]
    exact derived

namespace Program

/-- The words of a class with a field that selects a member a number of times. -/
theorem listWords_selecting (count : Nat) :
    listWords 1 (selecting count).classes =
      keyword 1 .classWord :: name 1 "a" :: keyword 1 .isWord ::
        keyword 2 .varWord :: name 2 "a" :: symbol 2 .colon ::
          keyword 2 .thisWord :: (selections 2 count ++ [keyword 3 .endWord]) := by
  simp [selecting, listWords, words, baseWords,
    initWords, initHeight, Member.listWords, Member.listHeight, Member.words,
    Member.height, Field.words, Expr.words_selecting, Expr.words]

/-- The words of such a class are found by the scanner, and none is malformed. -/
theorem lexical_selecting (count : Nat) :
    ∀ word ∈ listWords 1 (selecting count).classes,
      word.Lexical ∧ word.kind ≠ .malformed := by
  have isWord : Lexeme.IsWord "a" := ⟨'a', [], by rfl, rfl, nofun⟩
  have name (line : Nat) : (name line "a").Lexical ∧ Kind.identifier ≠ .malformed :=
    ⟨⟨isWord, rfl⟩, nofun⟩
  have selections : ∀ word ∈ selections 2 count, word.Lexical ∧ word.kind ≠ .malformed := by
    induction count with
    | zero => nofun
    | succ count ih =>
      rw [selections, forall_mem_cons, forall_mem_cons]
      exact ⟨⟨trivial, nofun⟩, name 2, ih⟩
  rw [listWords_selecting]
  simp only [forall_mem_cons, forall_mem_append]
  exact ⟨⟨trivial, nofun⟩, name 1, ⟨trivial, nofun⟩, ⟨trivial, nofun⟩, name 2, ⟨trivial, nofun⟩,
    ⟨trivial, nofun⟩, selections, ⟨trivial, nofun⟩, nofun⟩

/-- Tokens of a class with a field that selects a member a number of times spell such a class. -/
theorem exists_derives_selecting (spelled : tokens.map Token.word =
      listWords 1 (selecting count).classes ++ [⟨.endOfFile, "", line⟩]) :
    ∃ decl start ending last', Derives maxDepth (.classes [decl]) ⟨tokens, last⟩ ⟨[ending], last'⟩ ∧
      ending.kind = .endOfFile ∧ .expr ((Expr.self start).selecting count) ∈ decl.roots := by
  rw [listWords_selecting] at spelled
  obtain ⟨classWord, _, -, worded, spelled⟩ := exists_step spelled last
  obtain ⟨className, _, -, named, spelled⟩ := exists_step spelled classWord.position
  obtain ⟨isWord, _, -, marked, spelled⟩ := exists_step spelled className.position
  obtain ⟨varWord, _, -, worded', spelled⟩ := exists_step spelled isWord.position
  obtain ⟨fieldName, _, -, named', spelled⟩ := exists_step spelled varWord.position
  obtain ⟨colon, _, -, marked', spelled⟩ := exists_step spelled fieldName.position
  obtain ⟨this, _, -, found, spelled⟩ := exists_step spelled colon.position
  obtain ⟨_, last', selected, spelled⟩ :=
    derives_selecting (maxDepth - 1) (.self this.position) (spelled.trans (append_assoc ..))
  obtain ⟨endWord, _, -, closes, spelled⟩ := exists_step spelled last'
  obtain ⟨ending, _, -, ends, spelled⟩ := exists_step spelled endWord.position
  obtain rfl := map_eq_nil_iff.mp spelled
  have noOperator : ¬endWord.Binds 1 := by
    rintro ⟨op, found, -⟩
    rw [closes.kind_eq] at found
    cases found
  have value : Derives maxDepth (.operand 1 ((Expr.self this.position).selecting count)) _ _ :=
    .operand (.binary (.postfixed (.self found) selected) (.chainEnd (closes.lacks noOperator)))
  have field := Derives.field (.binding worded' named' marked' value)
    (.noSemicolon (closes.lacks_kind nofun))
  have decl := Derives.classDecl worded named .noBase marked .noInitBlock
    (.members field .noMembers) closes (.noSemicolon (ends.lacks_kind nofun))
  obtain ⟨isEnd⟩ := ends
  exact ⟨_, this.position, ending, endWord.position, .classes decl .noClasses, isEnd, mem_cons_self⟩

/-- Paths have no bound: for every number there is a text that is read as a program with a path that
goes down to a subject that often. -/
theorem exists_path_selecting (count : Nat) :
    ∃ program, ofText (selecting count).source = .ok program ∧
      ∃ root ∈ program.roots, root.Path (List.replicate count .subject) := by
  have words := lexical_selecting count
  obtain ⟨line, spelled⟩ := map_word_scan_source fun word mem => (words word mem).1
  obtain ⟨decl, start, ending, last, derived, isEnd, found⟩ := exists_derives_selecting spelled
  have complete : Token.Complete (Token.scan (selecting count).source) := by
    refine Token.complete_scan fun token mem => ?_
    have listed := mem_map_of_mem (f := Token.word) mem
    rw [spelled] at listed
    rcases mem_append.mp listed with listed | listed
    · exact (words _ listed).2
    · rw [show token.kind = .endOfFile from congrArg kind (mem_singleton.mp listed)]
      nofun
  have path := Node.path_selecting count (.here : (expr (.self start)).Path [])
  rw [append_nil] at path
  exact ⟨⟨[decl]⟩, ofTokens_of_derives complete derived isEnd, _,
    mem_flatMap.mpr ⟨decl, mem_singleton_self decl, found⟩, path⟩

/-- A text with as many selections of a member as the limit on nesting is read, and has a path with
more nodes than the limit. -/
theorem maxDepth_lt_path_selecting :
    ∃ program, ofText ("class a is\n    var a : this" ++
        String.join (List.replicate maxDepth ".a") ++ "\nend\n") = .ok program ∧
      ∃ root ∈ program.roots, ∃ edges, root.Path edges ∧ maxDepth < edges.length + 1 := by
  have source : (selecting maxDepth).source = "class a is\n    var a : this" ++
      String.join (List.replicate maxDepth ".a") ++ "\nend\n" := by decide +kernel
  obtain ⟨program, read, root, outermost, path⟩ := exists_path_selecting maxDepth
  rw [source] at read
  refine ⟨program, read, root, outermost, _, path, ?_⟩
  rw [length_replicate]
  exact Nat.lt_succ_self maxDepth

end Program

end Selecting

end ClassLang
