import ClassLang.Proofs.Folding
import ClassLang.Proofs.Printing.Scanning
import Mathlib.Data.List.TakeWhile
import Mathlib.Tactic.Ring

/-! # Numerals

Every double has a text, and the text is read as a double again. A decimal with digits other than
zero is written as a number that the scanner could have found, in either form, and such a number is
always read; the shortest decimal of a positive double has such digits. -/

namespace ClassLang

open List Decimal

variable {decimal : Decimal}

/-! ## Numbers are read -/

namespace Lexeme

variable {whole point exponent : List Char}

/-- The exponent of a number is read. -/
theorem IsExponent.isSome_scale? (isExponent : IsExponent exponent) :
    (scale? exponent).isSome = true := by
  rcases isExponent with rfl | ⟨mark, sign, digits, rfl, marked, signed, nonempty, all⟩
  · rfl
  · have split : (splitSign (sign ++ digits)).2 = digits := by
      rcases signed with rfl | rfl | rfl
      · rw [nil_append, splitSign_of_isDigit all]
      · rfl
      · rfl
    have spells : digits ≠ [] ∧ digits.all Char.isDigit = true := ⟨nonempty, all_eq_true.mpr all⟩
    rw [scale?, if_pos marked, integer?]
    dsimp only
    rw [split, if_pos spells]
    rfl

/-- The fraction of a number ends where its exponent starts. -/
theorem IsFraction.afterPoint_append (isFraction : IsFraction point)
    (isExponent : IsExponent exponent) :
    afterPoint (point ++ exponent) = (point.drop 1, exponent) := by
  have stop : ∀ c ∈ exponent.head?, c.isDigit = false := by
    have head := isDigit_head_exponent (rfl : endsBefore [] = true) isExponent
    rwa [append_nil] at head
  rcases isFraction with rfl | ⟨digits, rfl, -, all⟩
  · rcases isExponent with rfl | ⟨mark, sign, digits, rfl, marked, -⟩
    · rfl
    · rcases marked with rfl | rfl <;> rfl
  · rw [cons_append, afterPoint, takeWhile_append_of_stop all stop,
      dropWhile_append_of_stop all stop]
    rfl

/-- A number is read part by part: the digits on both sides of the point, and how they are scaled. -/
theorem ofNumeral?_append (isWhole : IsDigits whole) (isFraction : IsFraction point)
    (isExponent : IsExponent exponent) :
    ofNumeral? (whole ++ (point ++ exponent)) = (scale? exponent).map fun scale =>
      ⟨valueOf (whole ++ point.drop 1), scale - (point.drop 1).length⟩ := by
  have stop : ∀ c ∈ (point ++ exponent).head?, c.isDigit = false := by
    have head := isDigit_head_fraction (rfl : endsBefore [] = true) isExponent isFraction
    rwa [append_nil] at head
  rw [ofNumeral?, takeWhile_append_of_stop isWhole.2 stop,
    dropWhile_append_of_stop isWhole.2 stop, isFraction.afterPoint_append isExponent]
  dsimp only
  rw [if_neg fun none => isWhole.1 none.1]

theorem IsNumber.isSome_ofNumeral? {kind : Kind} {text : String} (isNumber : IsNumber kind text) :
    (ofNumeral? text.toList).isSome = true := by
  obtain ⟨whole, point, exponent, spelling, isWhole, isFraction, isExponent, -⟩ := isNumber
  rw [spelling, ofNumeral?_append isWhole isFraction isExponent, Option.isSome_map]
  exact isExponent.isSome_scale?

/-- A number has no sign. -/
theorem IsNumber.splitSign_eq {kind : Kind} {text : String} (isNumber : IsNumber kind text) :
    splitSign text.toList = (false, text.toList) := by
  obtain ⟨whole, point, exponent, spelling, ⟨nonempty, all⟩, -⟩ := isNumber
  obtain ⟨c, others, rfl⟩ := exists_cons_of_ne_nil nonempty
  have digit := all c mem_cons_self
  rw [spelling, cons_append]
  unfold splitSign
  split
  · next first => cases first; exact absurd digit (by decide)
  · next first => cases first; exact absurd digit (by decide)
  · rfl

end Lexeme

/-! ## Decimals are written as numbers -/

namespace Decimal

open Lexeme

/-- More digits after some move those in front by as many places. -/
theorem valueOf_append (front back : List Char) :
    valueOf (front ++ back) = valueOf front * 10 ^ back.length + valueOf back := by
  have moves (digits : List Char) (start : Nat) :
      digits.foldl (fun value digit => 10 * value + (digit.toNat - '0'.toNat)) start =
        start * 10 ^ digits.length + valueOf digits := by
    unfold valueOf
    induction digits generalizing start with
    | nil => simp
    | cons digit rest ih =>
      rw [foldl_cons, foldl_cons, ih, ih (10 * 0 + _), length_cons]
      ring
  rw [valueOf, foldl_append, moves back]
  rfl

/-- Zeros spell zero. -/
@[simp] theorem valueOf_zeros (count : Nat) : valueOf (zeros count) = 0 := by
  induction count with
  | zero => rfl
  | succ count ih =>
    rw [zeros, replicate_succ', ← zeros, valueOf_append, ih]
    rfl

@[simp] theorem length_zeros (count : Nat) : (zeros count).length = count := length_replicate

theorem isDigit_zeros (count : Nat) : ∀ c ∈ zeros count, c.isDigit = true := by
  intro c member
  rw [(mem_replicate.mp member).2]
  rfl

theorem isDigits_zero : IsDigits ['0'] :=
  ⟨cons_ne_nil _ _, forall_mem_singleton.mpr rfl⟩

theorem isNumber_zero : IsNumber .real "0.0" :=
  ⟨['0'], ['.', '0'], [], rfl, isDigits_zero, .inr ⟨['0'], rfl, isDigits_zero⟩, .inl rfl, rfl⟩

/-- The digits of a decimal are its significant ones and zeros after them. -/
theorem exists_toDigits_eq (decimal : Decimal) :
    ∃ count, Nat.toDigits 10 decimal.digits = decimal.significant.1 ++ zeros count := by
  unfold significant
  dsimp only
  generalize Nat.toDigits 10 decimal.digits = digits
  refine ⟨(digits.reverse.takeWhile (· = '0')).length, ?_⟩
  have same : digits.reverse.takeWhile (· = '0') =
      zeros (digits.reverse.takeWhile (· = '0')).length :=
    eq_replicate_of_mem fun c member => by
      simpa using mem_takeWhile_imp member
  have parts := congrArg List.reverse
    (takeWhile_append_dropWhile (p := fun c => decide (c = '0')) (l := digits.reverse))
  rw [reverse_append, reverse_reverse, same, zeros, reverse_replicate] at parts
  exact parts.symm

/-- A decimal other than zero has significant digits. -/
theorem isDigits_significant (positive : 0 < decimal.digits) : IsDigits decimal.significant.1 := by
  obtain ⟨count, digits⟩ := exists_toDigits_eq decimal
  constructor
  · intro empty
    rw [empty, nil_append] at digits
    have value := valueOf_toDigits decimal.digits
    rw [digits, valueOf_zeros] at value
    omega
  · intro c member
    apply isDigit_toDigits decimal.digits c
    rw [digits]
    exact mem_append_left _ member

/-- Whether a text is a real number with some digits, of which a number of places stand before the
point. More zeros may follow the digits. -/
def IsWritten (text : String) (digits : List Char) (places : Int) : Prop :=
  ∃ (whole point exponent : List Char) (scale : Int) (count : Nat),
    text.toList = whole ++ (point ++ exponent) ∧
    (IsDigits whole ∧ IsFraction point ∧ IsExponent exponent ∧ ¬(point = [] ∧ exponent = [])) ∧
    scale? exponent = some scale ∧
    valueOf (whole ++ point.drop 1) = valueOf digits * 10 ^ count ∧
    scale - (point.drop 1).length + count = places - digits.length

/-- Digits are written in positional form. -/
theorem isWritten_positional {digits : List Char} (isDigits : IsDigits digits) (places : Int) :
    IsWritten (positional digits places) digits places := by
  obtain ⟨nonempty, all⟩ := isDigits
  by_cases small : places ≤ 0
  · -- zeros stand in front, and do not count
    have fraction : IsDigits (zeros (-places).toNat ++ digits) :=
      ⟨append_ne_nil_of_right_ne_nil _ nonempty, forall_mem_append.mpr ⟨isDigit_zeros _, all⟩⟩
    refine ⟨['0'], '.' :: (zeros (-places).toNat ++ digits), [], 0, 0, ?_,
      ⟨isDigits_zero, .inr ⟨_, rfl, fraction⟩, .inl rfl, fun both => nomatch both.1⟩, rfl, ?_, ?_⟩
    · simp [positional, small]
    · rw [drop_one, tail_cons, valueOf_append, valueOf_append, valueOf_zeros]
      simp [valueOf]
    · rw [drop_one, tail_cons, length_append, length_zeros]
      omega
  · have isWhole : IsDigits (digits.take places.toNat ++ zeros (places.toNat - digits.length)) := by
      -- there are as many digits before the point as there are places
      refine ⟨fun none => ?_, forall_mem_append.mpr ⟨?_, isDigit_zeros _⟩⟩
      · have length := congrArg List.length none
        rw [length_append, length_take, length_zeros, length_nil] at length
        omega
      · exact fun c member => all c (mem_of_mem_take member)
    by_cases enough : digits.length ≤ places.toNat
    · -- all digits stand before the point, and zeros fill the places that are left
      refine ⟨_, ['.', '0'], [], 0, places.toNat - digits.length + 1, ?_,
        ⟨isWhole, .inr ⟨_, rfl, isDigits_zero⟩, .inl rfl, fun both => nomatch both.1⟩, rfl, ?_, ?_⟩
      · simp [positional, small, enough]
      · rw [take_of_length_le enough, valueOf_append, valueOf_append, valueOf_zeros,
          length_zeros, Nat.pow_succ]
        simp [valueOf, Nat.mul_assoc]
      · rw [drop_one, tail_cons, length_singleton]
        omega
    · -- the point stands between the digits
      have rest : IsDigits (digits.drop places.toNat) :=
        ⟨fun none => enough (drop_eq_nil_iff.mp none),
          fun c member => all c (mem_of_mem_drop member)⟩
      refine ⟨_, '.' :: digits.drop places.toNat, [], 0, 0, ?_,
        ⟨isWhole, .inr ⟨_, rfl, rest⟩, .inl rfl, fun both => nomatch both.1⟩, rfl, ?_, ?_⟩
      · simp [positional, small, enough]
      · rw [drop_one, tail_cons, Nat.sub_eq_zero_of_le (by omega), zeros,
          replicate_zero, append_nil, take_append_drop, Nat.pow_zero, Nat.mul_one]
      · rw [drop_one, tail_cons, length_drop]
        omega

/-- The text of an integer is the exponent of a number. -/
theorem isExponent_toString (value : Int) : IsExponent ('e' :: (toString value).toList) := by
  have digits (magnitude : Nat) : IsDigits (Nat.toDigits 10 magnitude) :=
    ⟨Nat.toDigits_ne_nil, isDigit_toDigits magnitude⟩
  cases value with
  | ofNat magnitude =>
    rw [toList_toString_ofNat]
    exact .inr ⟨'e', [], _, rfl, .inl rfl, .inl rfl, digits magnitude⟩
  | negSucc magnitude =>
    rw [toList_toString_negSucc]
    exact .inr ⟨'e', ['-'], _, rfl, .inl rfl, .inr (.inr rfl), digits (magnitude + 1)⟩

/-- Digits are written in scientific form. -/
theorem isWritten_scientific {digits : List Char} (isDigits : IsDigits digits) (places : Int) :
    IsWritten (scientific digits places) digits places := by
  obtain ⟨nonempty, all⟩ := isDigits
  obtain ⟨first, rest, rfl⟩ := exists_cons_of_ne_nil nonempty
  obtain ⟨digit, others⟩ := forall_mem_cons.mp all
  have fraction : IsFraction (if rest = [] then [] else '.' :: rest) := by
    split
    · exact .inl rfl
    · next some => exact .inr ⟨rest, rfl, some, others⟩
  have dropped : (if rest = [] then [] else '.' :: rest).drop 1 = rest := by
    split
    · next none => rw [none]; rfl
    · rfl
  refine ⟨[first], _, 'e' :: (toString (places - 1)).toList, places - 1, 0, ?_,
    ⟨⟨cons_ne_nil _ _, forall_mem_singleton.mpr digit⟩, fraction,
      isExponent_toString (places - 1), fun both => nomatch both.2⟩, ?_, ?_, ?_⟩
  · simp [scientific]
  · rw [scale?, if_pos (.inl rfl), integer?_toString]
  · rw [dropped, Nat.pow_zero, Nat.mul_one]
    rfl
  · rw [dropped, length_cons]
    omega

/-- A decimal other than zero is written with its significant digits. -/
theorem isWritten_write (style : Style) (positive : 0 < decimal.digits) :
    IsWritten (decimal.write style) decimal.significant.1 decimal.significant.2 := by
  have digits := isDigits_significant positive
  unfold write
  dsimp only
  split
  · exact isWritten_positional digits _
  · exact isWritten_scientific digits _

/-- The text of a decimal other than zero is a real number. -/
theorem isNumber_write (style : Style) (positive : 0 < decimal.digits) :
    IsNumber .real (decimal.write style) := by
  obtain ⟨whole, point, exponent, -, -, spelling, ⟨isWhole, isFraction, isExponent, real⟩, -⟩ :=
    isWritten_write style positive
  refine ⟨whole, point, exponent, spelling, isWhole, isFraction, isExponent, ?_⟩
  rw [if_neg real]

end Decimal

/-! ## The shortest decimal -/

namespace Double

namespace Interval

/-- Numbers that are rounded to a positive double are positive. -/
theorem low_pos_ofBits {bits : Nat} (nonzero : bits ≠ 0) (bounded : bits < signBit) :
    0 < (ofBits bits).low := by
  have bounded' : bits < mantissaRange * 0x800 := bounded
  have mantissa : 0 < if bits / mantissaRange % 0x800 = 0 then bits % mantissaRange
      else bits % mantissaRange + mantissaRange := by
    split
    · next zero =>
        have below : bits / mantissaRange < 0x800 := Nat.div_lt_of_lt_mul bounded'
        rw [Nat.mod_eq_of_lt below] at zero
        have division := Nat.div_add_mod bits mantissaRange
        rw [zero] at division
        omega
    · have range : 0 < mantissaRange := by decide
      omega
  unfold ofBits
  dsimp only
  split <;> omega

variable {interval : Interval}

variable (positive : 0 < interval.low)

include positive

/-- A decimal in an interval of positive numbers is not zero. -/
theorem pos_of_contains {digits : Nat} {exponent : Int}
    (inside : interval.contains digits exponent = true) : 0 < digits := by
  have amount : 0 < (interval.quotient interval.low exponent).1 :=
    Nat.mul_pos (Nat.mul_pos positive (Nat.pow_pos (by decide))) (Nat.pow_pos (by decide))
  refine Nat.pos_of_ne_zero fun zero => ?_
  subst zero
  unfold contains at inside
  dsimp only at inside
  rw [Nat.zero_mul] at inside
  split at inside
  · have reached := (of_decide_eq_true inside).1
    omega
  · exact absurd (of_decide_eq_true inside).1 (Nat.not_lt_zero _)

/-- Nor is one that is found on a grid. -/
theorem pos_of_onGrid? {exponent : Int} (found : interval.onGrid? exponent = some decimal) :
    0 < decimal.digits := by
  unfold onGrid? at found
  dsimp only at found
  split at found <;> cases found
  · next inside _ =>
      have below := pos_of_contains positive inside
      dsimp only
      split <;> omega
  · next inside _ => exact pos_of_contains positive inside
  · exact Nat.succ_pos _

/-- The shortest decimal has digits other than zero, or it is the plain zero. -/
theorem shortest_cases : interval.shortest = ⟨0, 0⟩ ∨ 0 < interval.shortest.digits := by
  unfold shortest
  dsimp only
  cases found : (List.range 17).findSome? fun (count : Nat) =>
      interval.onGrid? (interval.places - (count + 1)) with
  | none => exact .inl rfl
  | some decimal =>
    obtain ⟨count, -, onGrid⟩ := exists_of_findSome?_eq_some found
    exact .inr (pos_of_onGrid? positive onGrid)

/-- The text of the shortest decimal is a real number. -/
theorem isNumber_shortest : Lexeme.IsNumber .real (interval.shortest.write Constant.realStyle) := by
  rcases shortest_cases positive with zero | digits
  · rw [zero]
    exact isNumber_zero
  · exact isNumber_write _ digits

end Interval

end Double

/-! ## Texts of doubles -/

namespace Constant

/-- A number is read as a double, with or without a minus sign. -/
theorem isSome_realOfText?_of_isNumber {kind : Kind} {sign text : String}
    (signed : sign = "" ∨ sign = "-") (isNumber : Lexeme.IsNumber kind text) :
    (realOfText? (sign ++ text)).isSome = true := by
  have magnitude : (magnitudeOfText? text.toList).isSome = true := by
    unfold magnitudeOfText?
    dsimp only
    split
    · rfl
    · split
      · rfl
      · rw [Option.isSome_map]
        exact isNumber.isSome_ofNumeral?
  have split : (splitSign (sign ++ text).toList).2 = text.toList := by
    rw [String.toList_append]
    rcases signed with rfl | rfl
    · exact congrArg Prod.snd isNumber.splitSign_eq
    · rfl
  rw [realOfText?]
  dsimp only
  rw [split, Option.isSome_map]
  exact magnitude

/-- The text of a double without its sign. -/
def magnitudeText (magnitude : Nat) : String :=
  if magnitude = Double.infinityBits then "inf"
  else if magnitude = 0 then "0.0"
  else (Double.Interval.ofBits magnitude).shortest.write realStyle

/-- The text of a number is its sign and the text of its magnitude. -/
theorem realText_of_defined {value : Float} (defined : value.isNaN = false) :
    realText value = (if Double.signBit ≤ value.toBits.toNat then "-" else "") ++
      magnitudeText (value.toBits.toNat % Double.signBit) := by
  unfold realText magnitudeText
  dsimp only
  rw [defined, if_neg Bool.false_ne_true]
  split
  · rfl
  · split <;> rfl

/-- The text of a finite magnitude is a real number. -/
theorem isNumber_magnitudeText {magnitude : Nat} (bounded : magnitude < Double.signBit)
    (finite : magnitude ≠ Double.infinityBits) :
    Lexeme.IsNumber .real (magnitudeText magnitude) := by
  rw [magnitudeText, if_neg finite]
  split
  · exact isNumber_zero
  · next nonzero =>
      exact Double.Interval.isNumber_shortest (Double.Interval.low_pos_ofBits nonzero bounded)

/-- The text of every double is read as a double. -/
theorem isSome_realOfText?_realText (value : Float) :
    (realOfText? (realText value)).isSome = true := by
  by_cases undefined : value.isNaN = true
  · rw [realText, if_pos undefined]
    rfl
  rw [realText_of_defined (Bool.eq_false_iff.mpr undefined)]
  have signed : (if Double.signBit ≤ value.toBits.toNat then "-" else "") = "" ∨
      (if Double.signBit ≤ value.toBits.toNat then "-" else "") = "-" := by
    split
    · exact .inr rfl
    · exact .inl rfl
  by_cases infinite : value.toBits.toNat % Double.signBit = Double.infinityBits
  · rw [infinite]
    rcases signed with sign | sign <;> rw [sign] <;> rfl
  · have bounded := Nat.mod_lt value.toBits.toNat (by decide : 0 < Double.signBit)
    exact isSome_realOfText?_of_isNumber signed (isNumber_magnitudeText bounded infinite)

end Constant

end ClassLang
