import ClassLang.Proofs.NormalForm

/-! # Folding of integers

Arithmetic on integer literals is computed exactly where all of it fits into 64 bits. The exact value
of an expression is that over all integers, and it has none if a divisor is zero. Folding gives the
literal of the exact value if there is one and it and all values on the way to it fit; an operation
for which this fails is left in its place, and so are all the operations around it. Values are
handed on as texts of literals, which makes no difference since the text of an integer of 64 bits is
read back as it. -/

namespace ClassLang

open Constant

/-! ## Exact values -/

/-- Whether an expression is arithmetic on integer literals of 64 bits. -/
def Expr.isIntegral : Expr → Bool
  | .int text _ => (intOfText? text).isSome
  | .binary op left right _ => op.isArithmetic && left.isIntegral && right.isIntegral
  | _ => false

/-- Whether an expression is arithmetic on integer literals of 64 bits, or an operation on two such
expressions. -/
def Expr.isOnIntegers : Expr → Bool
  | .binary _ left right _ => left.isIntegral && right.isIntegral
  | expr => expr.isIntegral

/-- The exact value of an expression on integer literals, over all integers. Division goes toward
zero, and nothing is divided by zero. -/
def Expr.exactValue? : Expr → Option Constant
  | .int text _ => (Decimal.integer? text.toList).map .int
  | .binary op left right _ =>
    match left.exactValue?, right.exactValue? with
    | some (.int first), some (.int second) =>
      if op = .div ∧ second = 0 then none else some (op.exact first second)
    | _, _ => none
  | _ => none

/-- The operands of an operation. -/
inductive Side where
  | left
  | right
  deriving DecidableEq, Repr

/-- The operand on a side. -/
def Side.choose (left right : Expr) : Side → Expr
  | .left => left
  | .right => right

/-- The expression that a path through operands leads to. -/
def Expr.at? : List Side → Expr → Option Expr
  | [], expr => some expr
  | side :: path, .binary _ left right _ => (side.choose left right).at? path
  | _ :: _, _ => none

/-- Whether an expression has an exact value, and this and all values on the way to it fit into 64
bits. -/
def Expr.Fits (expr : Expr) : Prop :=
  expr.exactValue?.isSome = true ∧
    ∀ path part value, expr.at? path = some part → part.exactValue? = some value → value.InRange

theorem Constant.intOfText?_toString {value : Int} (inRange : (int value).InRange) :
    intOfText? (toString value) = some value := by
  rw [intOfText?, Decimal.integer?_toString, Option.bind_some, fitting?_eq_some.mpr ⟨rfl, inRange⟩]

/-- Arithmetic on integer literals is among the expressions on them. -/
theorem Expr.isOnIntegers_of_isIntegral {expr : Expr} (integral : expr.isIntegral = true) :
    expr.isOnIntegers = true := by
  cases expr with
  | binary op left right =>
    rw [Expr.isIntegral, Bool.and_assoc, Bool.and_eq_true] at integral
    exact integral.2
  | _ => exact integral

namespace Expr

variable {op : BinaryOp} {left right expr part : Expr} {position : Position}

/-- An operation has an exact value if its operands are integers, and the divisor is not zero. -/
theorem exactValue?_binary_eq_some {value : Constant} :
    (binary op left right position).exactValue? = some value ↔
      ∃ first second, left.exactValue? = some (.int first) ∧
        right.exactValue? = some (.int second) ∧ (op = .div → second ≠ 0) ∧
        op.exact first second = value := by
  rw [exactValue?]
  constructor
  · intro found
    split at found
    · next first second knownFirst knownSecond =>
        split at found
        · cases found
        · next defined =>
            exact ⟨first, second, knownFirst, knownSecond, fun div zero => defined ⟨div, zero⟩,
              Option.some.inj found⟩
    · cases found
  · rintro ⟨first, second, knownFirst, knownSecond, nonzero, rfl⟩
    simp only [knownFirst, knownSecond]
    rw [if_neg fun zero => nonzero zero.1 zero.2]

/-- The parts of an expression with an exact value have exact values. -/
theorem isSome_exactValue?_at? {path : List Side} (known : expr.exactValue?.isSome = true)
    (found : expr.at? path = some part) : part.exactValue?.isSome = true := by
  fun_induction at? path expr with
  | case1 expr =>
    cases found
    exact known
  | case2 side path op left right _ ih =>
    obtain ⟨value, known⟩ := Option.isSome_iff_exists.mp known
    obtain ⟨first, second, knownFirst, knownSecond, -⟩ := exactValue?_binary_eq_some.mp known
    refine ih ?_ found
    cases side <;> simp [Side.choose, knownFirst, knownSecond]
  | case3 => cases found

/-- A path in two steps. -/
theorem at?_append {first second : List Side} (found : expr.at? first = some part) :
    expr.at? (first ++ second) = part.at? second := by
  fun_induction at? first expr with
  | case1 expr =>
    cases found
    rfl
  | case2 side path op left right _ ih => exact ih found
  | case3 => cases found

theorem Fits.at? (fits : expr.Fits) (path : List Side) (found : expr.at? path = some part) :
    part.Fits := by
  refine ⟨isSome_exactValue?_at? fits.1 found, fun further other value reached => ?_⟩
  exact fits.2 (path ++ further) other value ((at?_append found).trans reached)

/-- An operation fits if its operands do and its own value does. -/
theorem fits_binary :
    (binary op left right position).Fits ↔
      left.Fits ∧ right.Fits ∧ ∃ first second, left.exactValue? = some (.int first) ∧
        right.exactValue? = some (.int second) ∧ (op = .div → second ≠ 0) ∧
        (op.exact first second).InRange := by
  constructor
  · intro fits
    obtain ⟨value, known⟩ := Option.isSome_iff_exists.mp fits.1
    obtain ⟨first, second, knownFirst, knownSecond, nonzero, rfl⟩ :=
      exactValue?_binary_eq_some.mp known
    have inRange := fits.2 [] _ _ rfl known
    exact ⟨fits.at? [.left] rfl, fits.at? [.right] rfl, first, second, knownFirst, knownSecond,
      nonzero, inRange⟩
  · rintro ⟨fitsLeft, fitsRight, first, second, knownFirst, knownSecond, nonzero, inRange⟩
    have known : (binary op left right position).exactValue? = some (op.exact first second) :=
      exactValue?_binary_eq_some.mpr ⟨first, second, knownFirst, knownSecond, nonzero, rfl⟩
    refine ⟨by rw [known]; rfl, fun path part value found exact => ?_⟩
    cases path with
    | nil =>
      cases found
      rw [known] at exact
      exact Option.some.inj exact ▸ inRange
    | cons side path =>
      cases side with
      | left => exact fitsLeft.2 path part value found exact
      | right => exact fitsRight.2 path part value found exact

/-! ## Folding -/

/-- The literal that an expression with a value that fits is folded to. -/
structure FoldsTo (expr : Expr) (value : Int) : Prop where
  /-- The expression is folded to a literal of the value. -/
  literal : ∃ text position, expr.fold = .int text position ∧ intOfText? text = some value
  exact : expr.exactValue? = some (.int value)
  /-- All values on the way to it fit. -/
  fits : expr.Fits

theorem FoldsTo.ofExpr? {value : Int} (folds : expr.FoldsTo value) :
    ofExpr? expr.fold = some (.int value) := by
  obtain ⟨text, position, folded, denotes⟩ := folds.literal
  rw [folded, Constant.ofExpr?, denotes]
  rfl

/-- An operation on two values is folded to the literal of its exact result, or it stays if that does
not fit. -/
theorem fold_binary_of_foldsTo {first second : Int} (op : BinaryOp) (foldsLeft : left.FoldsTo first)
    (foldsRight : right.FoldsTo second) (position : Position) :
    (binary op left right position).Fits ∧
        (binary op left right position).fold = (op.exact first second).toExpr position ∨
      ¬(binary op left right position).Fits ∧
        (binary op left right position).fold = .binary op left.fold right.fold position := by
  have computed : result? op left.fold right.fold =
      binary? op (.int first) (.int second) := by
    unfold result?
    rw [foldsLeft.ofExpr?, foldsRight.ofExpr?]
    rfl
  rw [fold, combine_eq, computed, fits_binary]
  cases result : binary? op (.int first) (.int second) with
  | some constant =>
    obtain ⟨rfl, nonzero, inRange⟩ := binary?_int.mp result
    exact .inl ⟨⟨foldsLeft.fits, foldsRight.fits, first, second, foldsLeft.exact,
      foldsRight.exact, nonzero, inRange⟩, rfl⟩
  | none =>
    refine .inr ⟨?_, rfl⟩
    rintro ⟨-, -, first', second', exactFirst, exactSecond, nonzero, inRange⟩
    cases foldsLeft.exact.symm.trans exactFirst
    cases foldsRight.exact.symm.trans exactSecond
    rw [binary?_int.mpr ⟨rfl, nonzero, inRange⟩] at result
    cases result

/-- An operation on two values that fits has the exact result. -/
theorem exactValue?_binary_of_foldsTo {first second : Int} (foldsLeft : left.FoldsTo first)
    (foldsRight : right.FoldsTo second) (fits : (binary op left right position).Fits) :
    (binary op left right position).exactValue? = some (op.exact first second) := by
  obtain ⟨-, -, first', second', exactFirst, exactSecond, nonzero, -⟩ := fits_binary.mp fits
  cases foldsLeft.exact.symm.trans exactFirst
  cases foldsRight.exact.symm.trans exactSecond
  exact exactValue?_binary_eq_some.mpr ⟨first, second, exactFirst, exactSecond, nonzero, rfl⟩

/-- Whether an expression does not fit, and is an operation also after folding. -/
def Stays (expr : Expr) : Prop :=
  ¬expr.Fits ∧ ∃ op left right position, expr.fold = .binary op left right position

/-- An operation stays if one of its operands does. -/
theorem fold_binary_of_stays (op : BinaryOp) (stays : left.Stays ∨ right.Stays)
    (position : Position) :
    ¬(binary op left right position).Fits ∧
      (binary op left right position).fold = .binary op left.fold right.fold position := by
  constructor
  · intro fits
    obtain ⟨fitsLeft, fitsRight, -⟩ := fits_binary.mp fits
    exact stays.elim (fun stays => stays.1 fitsLeft) (fun stays => stays.1 fitsRight)
  · -- one operand is no literal, so there is nothing to compute
    have uncomputed : result? op left.fold right.fold = none := by
      unfold result?
      rcases stays with ⟨-, _, _, _, _, kept⟩ | ⟨-, _, _, _, _, kept⟩
      · rw [kept]
        rfl
      · rw [kept]
        cases ofExpr? left.fold <;> rfl
    rw [fold, combine_eq, uncomputed]
    rfl

/-- An operation on operands that are folded or stay is computed exactly if it fits. -/
theorem fold_binary_cases (op : BinaryOp) (first : (∃ value, left.FoldsTo value) ∨ left.Stays)
    (second : (∃ value, right.FoldsTo value) ∨ right.Stays) (position : Position) :
    (∃ first second, left.FoldsTo first ∧ right.FoldsTo second ∧
        (binary op left right position).Fits ∧
        (binary op left right position).fold = (op.exact first second).toExpr position) ∨
      ¬(binary op left right position).Fits ∧
        (binary op left right position).fold = .binary op left.fold right.fold position := by
  rcases first with ⟨first, foldsLeft⟩ | stays
  · rcases second with ⟨second, foldsRight⟩ | stays
    · refine (fold_binary_of_foldsTo op foldsLeft foldsRight position).imp_left fun computed => ?_
      exact ⟨first, second, foldsLeft, foldsRight, computed⟩
    · exact .inr (fold_binary_of_stays op (.inr stays) position)
  · exact .inr (fold_binary_of_stays op (.inl stays) position)

/-- An integer literal of 64 bits is its own value. -/
theorem foldsTo_int {text : String} {value : Int} (denotes : intOfText? text = some value)
    (position : Position) : (int text position).FoldsTo value := by
  obtain ⟨read, spelled, fitting⟩ := Option.bind_eq_some_iff.mp denotes
  obtain ⟨rfl, inRange⟩ := fitting?_eq_some.mp fitting
  have exact : (int text position).exactValue? = some (.int read) := by
    rw [exactValue?, spelled]
    rfl
  refine ⟨⟨text, position, rfl, denotes⟩, exact, by rw [exact]; rfl, ?_⟩
  intro path part value found known
  cases path with
  | nil =>
    cases found
    rw [exact] at known
    exact Option.some.inj known ▸ inRange
  | cons side path => cases found

/-- Arithmetic on integer literals is folded to a literal of its exact value, or it stays. -/
theorem foldsTo_or_stays : (expr : Expr) → expr.isIntegral = true →
    (∃ value, expr.FoldsTo value) ∨ expr.Stays
  | .int text position, integral => by
    obtain ⟨value, denotes⟩ := Option.isSome_iff_exists.mp integral
    exact .inl ⟨value, foldsTo_int denotes position⟩
  | .binary op left right position, integral => by
    rw [isIntegral, Bool.and_eq_true, Bool.and_eq_true] at integral
    obtain ⟨⟨arithmetic, integralLeft⟩, integralRight⟩ := integral
    rcases fold_binary_cases op (foldsTo_or_stays left integralLeft)
        (foldsTo_or_stays right integralRight) position with
      ⟨first, second, foldsLeft, foldsRight, fits, folded⟩ | ⟨beyond, kept⟩
    · have known := exactValue?_binary_of_foldsTo foldsLeft foldsRight fits
      obtain ⟨value, exact⟩ : ∃ value, op.exact first second = .int value := by
        cases op <;> first | exact ⟨_, rfl⟩ | cases arithmetic
      rw [exact] at folded known
      have inRange : (Constant.int value).InRange := fits.2 [] _ _ rfl known
      exact .inl ⟨value, ⟨_, _, folded, intOfText?_toString inRange⟩, known, fits⟩
    · exact .inr ⟨beyond, op, left.fold, right.fold, position, kept⟩

/-- Where an operation does not fit, folding leaves it in its place, with its operands folded. -/
theorem at?_fold_of_not_fits {path : List Side} (onIntegers : expr.isOnIntegers = true)
    (found : expr.at? path = some (.binary op left right position))
    (beyond : ¬(binary op left right position).Fits) :
    expr.fold.at? path = some (.binary op left.fold right.fold position) := by
  -- every operation on the path contains the one at its end, so none of them fits either
  have stays {op : BinaryOp} {left right : Expr} {position : Position}
      (integralLeft : left.isIntegral = true) (integralRight : right.isIntegral = true)
      (beyond : ¬(binary op left right position).Fits) :
      (binary op left right position).fold = .binary op left.fold right.fold position := by
    rcases fold_binary_cases op (foldsTo_or_stays left integralLeft)
        (foldsTo_or_stays right integralRight) position with ⟨_, _, _, _, fits, _⟩ | ⟨_, kept⟩
    · exact absurd fits beyond
    · exact kept
  induction path generalizing expr with
  | nil =>
    obtain rfl : expr = .binary op left right position := Option.some.inj found
    obtain ⟨integralLeft, integralRight⟩ := Bool.and_eq_true_iff.mp onIntegers
    rw [stays integralLeft integralRight beyond]
    rfl
  | cons side path ih =>
    cases expr with
    | binary outer first second place =>
      obtain ⟨integralFirst, integralSecond⟩ := Bool.and_eq_true_iff.mp onIntegers
      have outside : ¬(binary outer first second place).Fits :=
        fun fits => beyond (fits.at? (side :: path) found)
      rw [stays integralFirst integralSecond outside]
      cases side with
      | left => exact ih (isOnIntegers_of_isIntegral integralFirst) found
      | right => exact ih (isOnIntegers_of_isIntegral integralSecond) found
    | _ => cases found

/-- Folding of integers is exact and hides no fault. Arithmetic on integer literals is folded to an
integer literal if and only if no divisor is zero and all values fit into 64 bits, and then the
literal denotes the exact value. A comparison of two such expressions is folded to the literal of the
exact answer. Any other operation is found in the folded expression where it was before, and so are
the operations around it, since the path to it goes through them. -/
theorem fold_integers {expr : Expr} (onIntegers : expr.isOnIntegers = true) :
    (expr.isIntegral = true →
      ((∃ text position, expr.fold = .int text position) ↔ expr.Fits) ∧
        ∀ text position, expr.fold = .int text position →
          ∃ value, expr.exactValue? = some (.int value) ∧ intOfText? text = some value) ∧
    (∀ op left right position, expr = .binary op left right position → op.isComparison = true →
      left.Fits → right.Fits →
      ∃ first second truth, left.exactValue? = some (.int first) ∧
        right.exactValue? = some (.int second) ∧ op.exact first second = .bool truth ∧
        expr.fold = .bool truth position) ∧
    ∀ path op left right position, expr.at? path = some (.binary op left right position) →
      ¬(Expr.binary op left right position).Fits →
      expr.fold.at? path = some (.binary op left.fold right.fold position) := by
  refine ⟨fun integral => ?_, ?_, fun path op left right position found beyond =>
    at?_fold_of_not_fits onIntegers found beyond⟩
  · rcases foldsTo_or_stays expr integral with ⟨value, folds⟩ | stays
    · obtain ⟨text, position, folded, denotes⟩ := folds.literal
      refine ⟨iff_of_true ⟨text, position, folded⟩ folds.fits, fun text' position' same => ?_⟩
      cases folded.symm.trans same
      exact ⟨value, folds.exact, denotes⟩
    · obtain ⟨beyond, op, left, right, position, kept⟩ := stays
      rw [kept]
      exact ⟨iff_of_false nofun beyond, nofun⟩
  · rintro op left right position rfl compares fitsLeft fitsRight
    obtain ⟨integralLeft, integralRight⟩ := Bool.and_eq_true_iff.mp onIntegers
    obtain ⟨first, foldsLeft⟩ := (foldsTo_or_stays left integralLeft).resolve_right
      fun stays => stays.1 fitsLeft
    obtain ⟨second, foldsRight⟩ := (foldsTo_or_stays right integralRight).resolve_right
      fun stays => stays.1 fitsRight
    obtain ⟨truth, answer⟩ : ∃ truth, op.exact first second = .bool truth := by
      cases op <;> first | exact ⟨_, rfl⟩ | cases compares
    refine ⟨first, second, truth, foldsLeft.exact, foldsRight.exact, answer, ?_⟩
    rcases fold_binary_of_foldsTo op foldsLeft foldsRight position with ⟨-, folded⟩ | ⟨beyond, -⟩
    · rw [folded, answer]
      rfl
    · -- an answer is no integer, so it always fits
      refine absurd (fits_binary.mpr ⟨fitsLeft, fitsRight, first, second, foldsLeft.exact,
        foldsRight.exact, ?_, answer ▸ trivial⟩) beyond
      rintro rfl
      cases compares

/-- The least integer of 64 bits, divided by minus one and compared with a numeral that starts with
zeros. -/
def leastByMinusOne : Expr :=
  let least := binary .sub (binary .sub (int "0" ⟨1, 1⟩) (int "9223372036854775807" ⟨1, 3⟩) ⟨1, 1⟩)
    (int "1" ⟨1, 23⟩) ⟨1, 1⟩
  binary .gt (binary .div least (binary .sub (int "0" ⟨1, 25⟩) (int "1" ⟨1, 27⟩) ⟨1, 25⟩) ⟨1, 1⟩)
    (int "007" ⟨1, 29⟩) ⟨1, 1⟩

/-- The quotient does not fit by one. It stays where it is, on operands that are folded. -/
theorem fold_leastByMinusOne :
    leastByMinusOne.isOnIntegers = true ∧
      leastByMinusOne.fold.at? [.left] =
        some (.binary .div (.int "-9223372036854775808" ⟨1, 1⟩) (.int "-1" ⟨1, 25⟩) ⟨1, 1⟩) := by
  have onIntegers : leastByMinusOne.isOnIntegers = true := by decide +kernel
  refine ⟨onIntegers, ?_⟩
  have kept := (fold_integers onIntegers).2.2 [.left] .div _ _ _ rfl fun fits => ?_
  · exact kept
  · have inRange := fits.2 [] _ (.int 9223372036854775808) rfl rfl
    exact absurd inRange.2 (by decide)

end Expr

end ClassLang
