import ClassLang.Proofs.Scopes
import ClassLang.Simplify

/-! # Folding of constants

An expression and the expression with its constant operations computed have the same kind and the
same value, for every meaning of the operators that is exact on integers that fit into 64 bits, on
truth values, and on doubles as far as their arithmetic is computed. -/

namespace ClassLang

open ClassLang.Expr Constant

variable {constant : Constant} {op : BinaryOp}

variable {V S : Type}

/-! ## Integers as text -/

/-- Digits have no sign. -/
theorem Decimal.splitSign_of_isDigit {characters : List Char}
    (digits : ∀ character ∈ characters, character.isDigit = true) :
    splitSign characters = (false, characters) := by
  unfold splitSign
  split
  · exact absurd (digits '-' List.mem_cons_self) (by decide)
  · exact absurd (digits '+' List.mem_cons_self) (by decide)
  · rfl

theorem Decimal.valueOf_toDigits (value : Nat) : valueOf (Nat.toDigits 10 value) = value :=
  Nat.ofDigitChars_ten_toDigits

/-- Whether there are digits, and nothing else, in the digits of a natural number. -/
theorem Decimal.isDigit_toDigits (value : Nat) :
    ∀ character ∈ Nat.toDigits 10 value, character.isDigit = true :=
  fun _ member => Nat.isDigit_of_mem_toDigits (by decide) (by decide) member

theorem Decimal.toList_toString_ofNat (magnitude : Nat) :
    (toString (Int.ofNat magnitude)).toList = Nat.toDigits 10 magnitude := by
  rw [← Nat.toList_repr]
  rfl

/-- The text of a negative integer is a minus sign and the digits of its magnitude. -/
theorem Decimal.toList_toString_negSucc (magnitude : Nat) :
    (toString (Int.negSucc magnitude)).toList = '-' :: Nat.toDigits 10 (magnitude + 1) := by
  rw [← Nat.toList_repr, Int.toString_eq_repr, Int.repr, String.toList_append]
  rfl

/-- The text of an integer is read back as it. -/
theorem Decimal.integer?_toString (value : Int) : integer? (toString value).toList = some value := by
  have spells (magnitude : Nat) : Nat.toDigits 10 magnitude ≠ [] ∧
      (Nat.toDigits 10 magnitude).all Char.isDigit = true :=
    ⟨Nat.toDigits_ne_nil, List.all_eq_true.mpr (isDigit_toDigits magnitude)⟩
  cases value with
  | ofNat magnitude =>
    rw [toList_toString_ofNat, integer?, splitSign_of_isDigit (isDigit_toDigits magnitude)]
    simp only [if_pos (spells magnitude), valueOf_toDigits]
    rfl
  | negSucc magnitude =>
    rw [toList_toString_negSucc, integer?, splitSign]
    simp only [if_pos (spells (magnitude + 1)), valueOf_toDigits]
    rfl

namespace Constant

/-- Whether a constant is no integer beyond 64 bits. -/
def InRange : Constant → Prop
  | int value => minInt ≤ value ∧ value ≤ maxInt
  | _ => True

/-- The kind of a constant. -/
def kind : Constant → Scalar
  | int _ => .int
  | real _ => .real
  | bool _ => .bool

/-- An integer that fits into 64 bits is kept. -/
theorem fitting?_eq_some {value result : Int} :
    fitting? value = some result ↔ value = result ∧ (int value).InRange := by
  rw [fitting?]
  by_cases fits : minInt ≤ value ∧ value ≤ maxInt
  · rw [if_pos fits, Option.some_inj]
    exact ⟨fun same => ⟨same, fits⟩, And.left⟩
  · rw [if_neg fits]
    exact ⟨nofun, fun both => absurd both.2 fits⟩

/-- The literal of a truth value or of an integer that fits into 64 bits denotes it. -/
theorem ofExpr?_toExpr (inRange : constant.InRange) (notReal : constant.kind ≠ .real)
    (position : Position) : ofExpr? (constant.toExpr position) = some constant := by
  cases constant with
  | int value =>
    rw [toExpr, ofExpr?, intOfText?, Decimal.integer?_toString, Option.bind_some,
      fitting?_eq_some.mpr ⟨rfl, inRange⟩]
    rfl
  | real value => exact absurd rfl notReal
  | bool value => rfl

/-- Literals denote integers of 64 bits only. -/
theorem inRange_of_ofExpr? {expr : Expr} (known : ofExpr? expr = some constant) :
    constant.InRange := by
  unfold ofExpr? at known
  split at known
  · obtain ⟨value, text, rfl⟩ := Option.map_eq_some_iff.mp known
    obtain ⟨read, _, fits⟩ := Option.bind_eq_some_iff.mp text
    obtain ⟨rfl, inRange⟩ := fitting?_eq_some.mp fits
    exact inRange
  · obtain ⟨value, _, rfl⟩ := Option.map_eq_some_iff.mp known
    trivial
  · cases known
    trivial
  · cases known

end Constant

/-! ## Operators that are exact on constants -/

/-- The exact result of an operator on two integers; division goes toward zero. -/
def BinaryOp.exact (left right : Int) : BinaryOp → Constant
  | .add => .int (left + right)
  | .sub => .int (left - right)
  | .mul => .int (left * right)
  | .div => .int (left.tdiv right)
  | .gt => .bool (left > right)
  | .lt => .bool (left < right)
  | .ge => .bool (left ≥ right)
  | .le => .bool (left ≤ right)
  | .eq => .bool (left = right)
  | .ne => .bool (left ≠ right)

/-- Operators that are exact on constants. Literals have values; on integers of 64 bits the result is
the exact one whenever there is one of 64 bits; truth values are compared and tested as such; on
doubles, and on a double and an integer, the result is the value of the literal that is computed, if
one is. -/
structure Operators.Lawful (operators : Operators V S) : Prop where
  /-- Literals have values. -/
  constant : ∀ constant, ∃ value, operators.constant constant = some value
  /-- A truth value passes a test if it is true. -/
  truth : ∀ truth value, operators.constant (.bool truth) = some value →
    operators.truth value = some truth
  /-- Arithmetic and comparison of integers are exact. -/
  integers : ∀ op left right first second, (int left).InRange →
    (int right).InRange → (op = .div → right ≠ 0) → (op.exact left right).InRange →
    operators.constant (.int left) = some first → operators.constant (.int right) = some second →
    operators.binary op ⟨some .int, first⟩ ⟨some .int, second⟩ =
      operators.constant (op.exact left right)
  /-- Truth values can be compared for equality. -/
  equal : ∀ left right first second, operators.constant (.bool left) = some first →
    operators.constant (.bool right) = some second →
    operators.binary .eq ⟨some .bool, first⟩ ⟨some .bool, second⟩ =
      operators.constant (.bool (left = right))
  /-- Truth values can be compared for inequality. -/
  unequal : ∀ left right first second, operators.constant (.bool left) = some first →
    operators.constant (.bool right) = some second →
    operators.binary .ne ⟨some .bool, first⟩ ⟨some .bool, second⟩ =
      operators.constant (.bool (left ≠ right))
  /-- Arithmetic and comparison of doubles are as computed. -/
  reals : ∀ op left right first second result position, left.kind = .real ∨ right.kind = .real →
    binary? op left right = some result →
    operators.constant left = some first → operators.constant right = some second →
    operators.binary op ⟨some left.kind, first⟩ ⟨some right.kind, second⟩ =
      (ofExpr? (result.toExpr position)).bind operators.constant

namespace Constant

/-- Arithmetic on integers is exact, and done only if the result fits into 64 bits. -/
theorem intArithmetic?_eq_some (arithmetic : op.isArithmetic = true) {left right result : Int} :
    intArithmetic? op left right = some result ↔
      op.exact left right = int result ∧ (op = .div → right ≠ 0) ∧ (int result).InRange := by
  have fits {value : Int} : fitting? value = some result ↔
      int value = int result ∧ (int result).InRange := by
    rw [fitting?_eq_some, int.injEq]
    exact and_congr_right fun same => by rw [same]
  cases op with
  | add | sub | mul =>
    rw [intArithmetic?, fits]
    exact and_congr_right fun _ => (and_iff_right nofun).symm
  | div =>
    rw [intArithmetic?]
    by_cases zero : right = 0
    · rw [if_pos zero]
      exact ⟨nofun, fun exact => absurd zero (exact.2.1 rfl)⟩
    · rw [if_neg zero, fits]
      exact and_congr_right fun _ => (and_iff_right fun _ => zero).symm
  | _ => cases arithmetic

theorem kind_exact_ne_real (op : BinaryOp) (left right : Int) :
    (op.exact left right).kind ≠ .real := by
  cases op <;> nofun

theorem exact_eq_intCompare (compares : op.isArithmetic = false) (left right : Int) :
    op.exact left right = bool (intCompare op left right) := by
  cases op <;> first | rfl | cases compares

/-- What is computed from two integers is their exact result. -/
theorem binary?_int {left right : Int} {result : Constant} :
    binary? op (int left) (int right) = some result ↔
      op.exact left right = result ∧ (op = .div → right ≠ 0) ∧ result.InRange := by
  rw [binary?]
  by_cases arithmetic : op.isArithmetic = true
  · rw [if_pos arithmetic, Option.map_eq_some_iff]
    constructor
    · rintro ⟨value, computed, rfl⟩
      exact (intArithmetic?_eq_some arithmetic).mp computed
    · rintro ⟨rfl, nonzero, inRange⟩
      obtain ⟨value, exact⟩ : ∃ value, op.exact left right = int value := by
        cases op <;> first | exact ⟨_, rfl⟩ | cases arithmetic
      rw [exact] at inRange ⊢
      exact ⟨value, (intArithmetic?_eq_some arithmetic).mpr ⟨exact, nonzero, inRange⟩, rfl⟩
  · rw [if_neg arithmetic, ← exact_eq_intCompare (by simpa using arithmetic), Option.some_inj]
    constructor
    · rintro rfl
      refine ⟨rfl, ?_, ?_⟩
      · rintro rfl
        exact absurd rfl arithmetic
      · rw [exact_eq_intCompare (by simpa using arithmetic)]
        trivial
    · exact And.left

/-- The kind of the result of an operator that is arithmetic or a comparison. -/
theorem kind_of_isArithmetic {α : Type} {value? : Option α} {make : α → Constant} {scalar : Scalar}
    (kinds : ∀ value, (make value).kind = scalar) {truth : Bool} {result : Constant}
    (computed : (if op.isArithmetic then value?.map make else some (bool truth)) = some result) :
    result.kind = if op.isComparison then .bool else scalar := by
  unfold BinaryOp.isComparison
  cases arithmetic : op.isArithmetic with
  | true =>
    rw [arithmetic, if_pos rfl] at computed
    obtain ⟨value, _, rfl⟩ := Option.map_eq_some_iff.mp computed
    exact kinds value
  | false =>
    rw [arithmetic, if_neg Bool.false_ne_true] at computed
    obtain rfl := Option.some.inj computed
    rfl

/-- The kind of what is computed: a truth value, a double if an operand is, or an integer. -/
theorem kind_binary? {left right result : Constant} (computed : binary? op left right = some result) :
    some result.kind = if op.isComparison then some .bool
      else Scalar.promote (some left.kind) (some right.kind) := by
  have promoted {scalar : Scalar}
      (same : Scalar.promote (some left.kind) (some right.kind) = some scalar)
      (kind : result.kind = if op.isComparison then .bool else scalar) :
      some result.kind = if op.isComparison then some .bool
        else Scalar.promote (some left.kind) (some right.kind) := by
    rw [kind, same]
    split <;> rfl
  have ofReals {first second : Float}
      (computed : (if op.isArithmetic then (realArithmetic? op first second).map real
        else some (bool (realCompare op first second))) = some result) :
      result.kind = if op.isComparison then .bool else .real :=
    kind_of_isArithmetic (fun value => (rfl : (real value).kind = .real)) computed
  cases left with
  | int first =>
    cases right with
    | int second =>
      rw [binary?] at computed
      exact promoted rfl
        (kind_of_isArithmetic (fun value => (rfl : (int value).kind = .int)) computed)
    | real second => exact promoted rfl (ofReals computed)
    | bool second => cases computed
  | real first =>
    cases right with
    | int second | real second => exact promoted rfl (ofReals computed)
    | bool second => cases computed
  | bool first =>
    cases right with
    | int second | real second => cases computed
    | bool second => cases op <;> cases computed <;> rfl

/-- What is computed from two literals is what lawful operators give. -/
theorem binary_of_binary? {operators : Operators V S} (lawful : operators.Lawful)
    {left right result : Constant} (leftRange : left.InRange) (rightRange : right.InRange)
    (computed : binary? op left right = some result) {first second : V}
    (leftValue : operators.constant left = some first)
    (rightValue : operators.constant right = some second) (position : Position) :
    operators.binary op ⟨some left.kind, first⟩ ⟨some right.kind, second⟩ =
      (ofExpr? (result.toExpr position)).bind operators.constant := by
  by_cases real : left.kind = .real ∨ right.kind = .real
  · exact lawful.reals op left right first second result position real computed leftValue rightValue
  cases left with
  | real _ => exact absurd (.inl rfl) real
  | int left =>
    cases right with
    | real _ => exact absurd (.inr rfl) real
    | bool right => cases computed
    | int right =>
      obtain ⟨rfl, nonzero, inRange⟩ := binary?_int.mp computed
      rw [ofExpr?_toExpr inRange (kind_exact_ne_real op left right), Option.bind_some]
      exact lawful.integers op left right first second leftRange rightRange nonzero inRange
        leftValue rightValue
  | bool left =>
    cases right with
    | real _ => exact absurd (.inr rfl) real
    | int right => cases computed
    | bool right =>
      cases op with
      | eq =>
        cases computed
        exact lawful.equal left right first second leftValue rightValue
      | ne =>
        cases computed
        exact lawful.unequal left right first second leftValue rightValue
      | _ => cases computed

end Constant

/-! ## Expressions -/

/-- The kind of a literal is the kind of what it denotes. -/
theorem Frame.kindOf_literal {frame : Frame} {expr : Expr}
    (known : ofExpr? expr = some constant) : frame.kindOf expr = some constant.kind := by
  unfold ofExpr? at known
  split at known
  · obtain ⟨value, _, rfl⟩ := Option.map_eq_some_iff.mp known
    rfl
  · obtain ⟨value, _, rfl⟩ := Option.map_eq_some_iff.mp known
    rfl
  · cases known
    rfl
  · cases known

theorem Frame.kindOf_toExpr (frame : Frame) (constant : Constant) (position : Position) :
    frame.kindOf (constant.toExpr position) = some constant.kind := by
  cases constant <;> rfl

namespace Expr

/-- Two simplified operands are combined into a literal or into an operation on them. -/
theorem combine_cases (op : BinaryOp) (left right : Expr) (position : Position) :
    combine op left right position = .binary op left right position ∨
      ∃ first second result, ofExpr? left = some first ∧
        ofExpr? right = some second ∧ binary? op first second = some result ∧
        combine op left right position = result.toExpr position := by
  unfold combine
  dsimp only
  split
  · next result computed =>
      obtain ⟨first, leftKnown, computed⟩ := Option.bind_eq_some_iff.mp computed
      obtain ⟨second, rightKnown, computed⟩ := Option.bind_eq_some_iff.mp computed
      exact .inr ⟨first, second, result, leftKnown, rightKnown, computed, rfl⟩
  · exact .inl rfl

/-- What is combined is neither a name nor the current object. -/
theorem isNamed_combine (op : BinaryOp) (left right : Expr) (position : Position) :
    (combine op left right position).isNamed = false ∧
      (combine op left right position).isSelf = false := by
  rcases combine_cases op left right position with
    combined | ⟨_, _, result, _, _, _, combined⟩
  · rw [combined]
    exact ⟨rfl, rfl⟩
  · rw [combined]
    cases result <;> exact ⟨rfl, rfl⟩

theorem isNamed_fold (expr : Expr) : expr.fold.isNamed = expr.isNamed := by
  cases expr with
  | binary => exact (isNamed_combine _ _ _ _).1
  | _ => rfl

theorem isSelf_fold (expr : Expr) : expr.fold.isSelf = expr.isSelf := by
  cases expr with
  | binary => exact (isNamed_combine _ _ _ _).2
  | _ => rfl

end Expr

/-- A call of something without a name has no known kind. -/
theorem Frame.kindOf_call (frame : Frame) {callee : Expr} (notNamed : callee.isNamed = false)
    (arguments : List Expr) (position : Position) :
    frame.kindOf (.call callee arguments position) = none := by
  cases callee with
  | ident | member => cases notNamed
  | _ => rfl

/-- Combining operands does not change the kind. -/
theorem Frame.kindOf_combine (frame : Frame) (op : BinaryOp) (left right : Expr)
    (position : Position) :
    frame.kindOf (combine op left right position) =
      frame.kindOf (.binary op left right position) := by
  rcases combine_cases op left right position with
    combined | ⟨first, second, result, leftKnown, rightKnown, computed, combined⟩
  · rw [combined]
  · rw [combined, kindOf_toExpr, kindOf, kindOf_literal leftKnown, kindOf_literal rightKnown,
      kind_binary? computed]

/-- Folding does not change the kind of an expression. -/
theorem Frame.kindOf_fold (frame : Frame) (expr : Expr) :
    frame.kindOf expr.fold = frame.kindOf expr := by
  fun_induction Frame.kindOf frame expr with
  | case1 | case2 | case3 | case4 => rfl
  | case5 op left right _ compares =>
    rw [fold, kindOf_combine, kindOf, if_pos compares]
  | case6 op left right _ notCompares leftIh rightIh =>
    rw [fold, kindOf_combine, kindOf, if_neg notCompares, leftIh, rightIh]
  | case7 => rfl
  | case8 receiver name _ _ operation named ih =>
    rw [fold, fold, foldList, kindOf]
    simp only [named, ih]
  | case9 receiver name _ _ unnamed =>
    rw [fold, fold, foldList, kindOf]
    simp only [unnamed]
  | case10 receiver name _ argument rest _ operation named receiverIh argumentIh =>
    rw [fold, fold, foldList, kindOf]
    simp only [named, receiverIh, argumentIh]
  | case11 receiver name _ argument rest _ unnamed =>
    rw [fold, fold, foldList, kindOf]
    simp only [unnamed]
  | case12 expr notInt notReal notBool notIdent notBinary notRoutine notOperation notOperation' =>
    cases expr with
    | self | member => rfl
    | call callee arguments position =>
      have notNamed : callee.isNamed = false := by
        cases callee with
        | ident name types place => exact absurd rfl (notRoutine name types place arguments position)
        | member receiver name place =>
          cases arguments with
          | nil => exact absurd rfl (notOperation receiver name place position)
          | cons argument rest =>
            exact absurd rfl (notOperation' receiver name place argument rest position)
        | _ => rfl
      rw [fold]
      exact kindOf_call frame (by rw [isNamed_fold, notNamed]) _ _
    | int text position => exact absurd rfl (notInt text position)
    | real text position => exact absurd rfl (notReal text position)
    | bool value position => exact absurd rfl (notBool value position)
    | ident name types position => exact absurd rfl (notIdent name types position)
    | binary op left right position => exact absurd rfl (notBinary op left right position)

section Evaluate

variable {setting : Setting V S} {environment : Environment V}

namespace Expr

/-- A literal evaluates to what it denotes. -/
theorem eval_of_known {expr : Expr} {value : V} (known : ofExpr? expr = some constant)
    (denotes : setting.operators.constant constant = some value) :
    expr.eval setting environment = pure value := by
  have literal : expr.eval setting environment = setting.literal expr := by
    unfold ofExpr? at known
    split at known
    · rw [eval]
    · rw [eval]
    · rw [eval]
    · cases known
  rw [literal, Setting.literal, known, Option.bind_some, denotes]
  rfl

/-- The literal that is computed from two literals has the value of the operation on them. -/
theorem eval_combine (lawful : setting.operators.Lawful) (op : BinaryOp) (left right : Expr)
    (position : Position) :
    (combine op left right position).eval setting environment =
      (binary op left right position).eval setting environment := by
  rcases combine_cases op left right position with
    combined | ⟨first, second, result, leftKnown, rightKnown, computed, combined⟩
  · rw [combined]
  · obtain ⟨leftValue, leftDenotes⟩ := lawful.constant first
    obtain ⟨rightValue, rightDenotes⟩ := lawful.constant second
    have agrees := binary_of_binary? lawful (inRange_of_ofExpr? leftKnown)
      (inRange_of_ofExpr? rightKnown) computed leftDenotes rightDenotes position
    have literal : (result.toExpr position).eval setting environment =
        setting.literal (result.toExpr position) := by
      cases result <;> rw [toExpr, eval]
    rw [combined, literal, eval, eval_of_known leftKnown leftDenotes,
      eval_of_known rightKnown rightDenotes, pure_bind, pure_bind, Setting.typed, Setting.typed,
      Frame.kindOf_literal leftKnown, Frame.kindOf_literal rightKnown, agrees]
    rfl

end Expr

theorem Setting.typed_fold (setting : Setting V S) (environment : Environment V) (expr : Expr)
    (value : V) : setting.typed environment expr.fold value = setting.typed environment expr value := by
  rw [Setting.typed, Setting.typed, Frame.kindOf_fold]

mutual

/-- Folding does not change the value of an expression. -/
theorem Expr.eval_fold (lawful : setting.operators.Lawful) (expr : Expr) :
    expr.fold.eval setting environment = expr.eval setting environment := by
  cases expr with
  | ident | self | int | real | bool => rfl
  | binary op left right =>
    rw [fold, eval_combine lawful, eval, eval, eval_fold lawful left, eval_fold lawful right]
    simp only [Setting.typed_fold]
  | member target name =>
    rw [fold]
    cases self : target.isSelf with
    | true =>
      cases target with
      | self => rfl
      | _ => cases self
    | false =>
      rw [eval_member (target.isSelf_fold.trans self), eval_member self, eval_fold lawful target]
  | call callee arguments position =>
    have folded := evalList_foldList lawful arguments
    rw [fold]
    cases named : callee.isNamed with
    | false =>
      rw [eval_call (callee.isNamed_fold.trans named), eval_call named, folded,
        eval_fold lawful callee]
      simp only [Setting.typed_fold]
    | true =>
      cases callee with
      | ident name types position =>
        change (call (.ident name types position) _ _).eval _ _ = _
        rw [eval, eval, folded]
      | member receiver name =>
        rw [fold, eval, eval, folded, eval_fold lawful receiver]
        simp only [Setting.typed_fold]
      | _ => cases named

theorem Expr.evalList_foldList (lawful : setting.operators.Lawful) (exprs : List Expr) :
    evalList setting environment (foldList exprs) = evalList setting environment exprs := by
  cases exprs with
  | nil => rfl
  | cons expr rest =>
    rw [foldList, evalList, evalList, eval_fold lawful expr, evalList_foldList lawful rest]
    simp only [Setting.typed_fold]

end

end Evaluate

end ClassLang
