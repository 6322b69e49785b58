import ClassLang.Constant

/-! # Simplification

Operations on literals are computed, a branch whose test is a literal is replaced by the block it
takes, a loop that never runs is dropped, and so is everything after a return. -/

namespace ClassLang

/-! ## Expressions -/

/-- An operation on two simplified operands: a literal if it can be computed. -/
def Expr.combine (op : BinaryOp) (left right : Expr) (position : Position) : Expr :=
  let result? := do
    let left ← Constant.ofExpr? left
    let right ← Constant.ofExpr? right
    Constant.binary? op left right
  match result? with
  | some result => result.toExpr position
  | none => .binary op left right position

mutual

/-- An expression with its constant operations computed, innermost first. -/
def Expr.fold : Expr → Expr
  | .binary op left right position => Expr.combine op left.fold right.fold position
  | .member target name position => .member target.fold name position
  | .call callee arguments position => .call callee.fold (Expr.foldList arguments) position
  | expr => expr

/-- Expressions with their constant operations computed. -/
def Expr.foldList : List Expr → List Expr
  | [] => []
  | expr :: rest => expr.fold :: Expr.foldList rest

end

/-! ## Statements -/

/-- Whether a statement is a return. -/
def Stmt.isReturn : Stmt → Bool
  | .ret _ _ => true
  | _ => false

/-- Whether a block ends with a return. -/
def Stmt.endsInReturn (block : List Stmt) : Bool := block.getLast?.any Stmt.isReturn

mutual

/-- The statements that take the place of a statement. -/
def Stmt.simplify : Stmt → List Stmt
  | .declare name init position => [.declare name init.fold position]
  | .assign target value position => [.assign target value.fold position]
  | .branch test body none position =>
    match test.fold.asBool? with
    | some true => Stmt.simplifyBlock body
    | some false => []
    | none => [.branch test.fold (Stmt.simplifyBlock body) none position]
  | .branch test body (some alternative) position =>
    match test.fold.asBool? with
    | some true => Stmt.simplifyBlock body
    | some false => Stmt.simplifyBlock alternative
    | none =>
      [.branch test.fold (Stmt.simplifyBlock body) (some (Stmt.simplifyBlock alternative)) position]
  | .loop test body position =>
    if test.fold.asBool? = some false then []
    else [.loop test.fold (Stmt.simplifyBlock body) position]
  | .ret value position => [.ret value.fold position]
  | .leave position => [.leave position]
  | .eval value position => [.eval value.fold position]

/-- A block with each statement simplified, up to the first return. -/
def Stmt.simplifyBlock : List Stmt → List Stmt
  | [] => []
  | stmt :: rest =>
    let simplified := stmt.simplify
    if Stmt.endsInReturn simplified then simplified
    else simplified ++ Stmt.simplifyBlock rest

end

/-! ## Declarations -/

/-- A member with its initial value or its body simplified. -/
def Member.simplify : Member → Member
  | .field decl => .field { decl with init := decl.init.fold }
  | .method decl => .method { decl with body := Stmt.simplifyBlock decl.body }

/-- A class with its blocks and members simplified. -/
def ClassDecl.simplify (decl : ClassDecl) : ClassDecl :=
  { decl with
    init := Stmt.simplifyBlock decl.init
    members := decl.members.map Member.simplify }

/-- A program with all its classes simplified. -/
def Program.simplify (program : Program) : Program :=
  { program with classes := program.classes.map ClassDecl.simplify }

end ClassLang
