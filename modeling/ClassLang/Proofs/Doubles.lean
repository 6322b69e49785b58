import ClassLang.Proofs.Numerals
import Mathlib.Algebra.Order.Field.Rat
import Mathlib.Algebra.Order.Field.Power
import Mathlib.Tactic.FieldSimp
import Mathlib.Tactic.Linarith
import Mathlib.Tactic.Positivity
import Mathlib.Tactic.Ring

/-! # Texts of doubles

Different doubles have different texts. A decimal that is written in either form is read back as the
same number, the shortest decimal of a double is one of the numbers that are rounded to it, and no
number is rounded to two doubles. -/

namespace ClassLang

variable {decimal : Decimal} {second value : Float} {bits : Nat}

/-! ## The number of a decimal -/

namespace Decimal

/-- The number that a decimal stands for. -/
def toRat (decimal : Decimal) : ℚ := decimal.digits * 10 ^ decimal.exponent

theorem toRat_mul_pow (value count : Nat) (exponent : Int) :
    toRat ⟨value * 10 ^ count, exponent⟩ = value * 10 ^ (exponent + count) := by
  rw [toRat, zpow_add₀ (by norm_num), zpow_natCast]
  push_cast
  ring

/-- The significant digits and the number of places give the number of a decimal. -/
theorem toRat_eq_significant (decimal : Decimal) :
    decimal.toRat = valueOf decimal.significant.1 *
      10 ^ (decimal.significant.2 - decimal.significant.1.length) := by
  obtain ⟨count, digits⟩ := exists_toDigits_eq decimal
  have value : decimal.digits = valueOf decimal.significant.1 * 10 ^ count := by
    rw [← valueOf_toDigits decimal.digits, digits, valueOf_append, valueOf_zeros, length_zeros,
      Nat.add_zero]
  have places :
      decimal.significant.2 - decimal.significant.1.length = decimal.exponent + count := by
    have length := congrArg List.length digits
    rw [List.length_append, length_zeros] at length
    change decimal.exponent + ((Nat.toDigits 10 decimal.digits).length : Int) - _ = _
    omega
  rw [places, ← toRat_mul_pow, ← value]

/-- A decimal other than zero is read back as the same number. -/
theorem exists_ofNumeral?_write (style : Style) (positive : 0 < decimal.digits) :
    ∃ read, ofNumeral? (decimal.write style).toList = some read ∧ read.toRat = decimal.toRat := by
  obtain ⟨whole, point, exponent, scale, count, spelling, ⟨isWhole, isFraction, isExponent, -⟩,
    scaled, value, places⟩ := isWritten_write style positive
  refine ⟨⟨valueOf (whole ++ point.drop 1), scale - (point.drop 1).length⟩, ?_, ?_⟩
  · rw [spelling, Lexeme.ofNumeral?_append isWhole isFraction isExponent, scaled]
    rfl
  · rw [value, toRat_mul_pow, places, toRat_eq_significant]

end Decimal

/-! ## The numbers that are rounded to a double -/

namespace Double.Interval

variable {interval : Interval} {number : ℚ}

/-- A number in an interval's unit. -/
def scaled (interval : Interval) (amount : Nat) : ℚ := amount * 2 ^ interval.exponent

/-- Whether a number is rounded to the double of an interval. -/
def Holds (interval : Interval) (number : ℚ) : Prop :=
  if interval.closed then
    interval.scaled interval.low ≤ number ∧ number ≤ interval.scaled interval.high
  else interval.scaled interval.low < number ∧ number < interval.scaled interval.high

theorem quotient_pos (interval : Interval) (amount : Nat) (exponent : Int) :
    0 < (interval.quotient amount exponent).2 :=
  Nat.mul_pos (Nat.pow_pos (by decide)) (Nat.pow_pos (by decide))

/-- A quotient is the number in units of the power of ten. -/
theorem quotient_eq (interval : Interval) (amount : Nat) (exponent : Int) :
    ((interval.quotient amount exponent).1 : ℚ) * 10 ^ exponent =
      interval.scaled amount * (interval.quotient amount exponent).2 := by
  have split (base : ℚ) (nonzero : base ≠ 0) (exponent : Int) :
      base ^ exponent * base ^ (-exponent).toNat = base ^ exponent.toNat := by
    rw [← zpow_natCast, ← zpow_natCast, ← zpow_add₀ nonzero]
    congr 1
    omega
  have two := split 2 (by norm_num) interval.exponent
  have ten := split 10 (by norm_num) exponent
  change ((amount * 2 ^ interval.exponent.toNat * 10 ^ (-exponent).toNat : ℕ) : ℚ) * 10 ^ exponent =
    amount * 2 ^ interval.exponent *
      ((2 ^ (-interval.exponent).toNat * 10 ^ exponent.toNat : ℕ) : ℚ)
  push_cast
  rw [← two, ← ten]
  ring

/-- Digits compare with a quotient as their decimal compares with the number. -/
theorem quotient_le_iff (amount digits : Nat) (exponent : Int) :
    ((interval.quotient amount exponent).1 ≤ digits * (interval.quotient amount exponent).2 ↔
      interval.scaled amount ≤ digits * 10 ^ exponent) ∧
    (digits * (interval.quotient amount exponent).2 ≤ (interval.quotient amount exponent).1 ↔
      digits * 10 ^ exponent ≤ interval.scaled amount) := by
  have ten : (0 : ℚ) < 10 ^ exponent := by positivity
  have unit : (0 : ℚ) < (interval.quotient amount exponent).2 := by
    exact_mod_cast quotient_pos interval amount exponent
  constructor
  all_goals
    rw [← mul_le_mul_iff_of_pos_right unit, ← quotient_eq, mul_right_comm,
      mul_le_mul_iff_of_pos_right ten]
    exact_mod_cast Iff.rfl

/-- An interval contains the decimals that are rounded to its double. -/
theorem contains_iff (digits : Nat) (exponent : Int) :
    interval.contains digits exponent = true ↔ interval.Holds (digits * 10 ^ exponent) := by
  unfold contains Holds
  dsimp only
  split
  · rw [decide_eq_true_iff, (quotient_le_iff _ _ _).1, (quotient_le_iff _ _ _).2]
  · rw [decide_eq_true_iff, ← not_le, (quotient_le_iff _ _ _).2, not_le, ← not_le (b := _ * _),
      (quotient_le_iff _ _ _).1, not_le]

/-- What is found on a grid is rounded to the double. -/
theorem holds_of_onGrid? {exponent : Int} (found : interval.onGrid? exponent = some decimal) :
    interval.Holds decimal.toRat := by
  suffices inside : interval.contains decimal.digits decimal.exponent = true from
    (contains_iff _ _).mp inside
  unfold onGrid? at found
  dsimp only at found
  split at found <;> cases found
  · next below above =>
      dsimp only
      split
      · exact above
      · exact below
  · next below _ => exact below
  · next _ above => exact above

/-- Numbers between the limits are rounded to the double. -/
theorem Holds.of_between (low : interval.scaled interval.low < number)
    (high : number < interval.scaled interval.high) : interval.Holds number := by
  unfold Holds
  split
  · exact ⟨low.le, high.le⟩
  · exact ⟨low, high⟩

theorem Holds.within (holds : interval.Holds number) :
    interval.scaled interval.low ≤ number ∧ number ≤ interval.scaled interval.high := by
  unfold Holds at holds
  split at holds
  · exact holds
  · exact ⟨holds.1.le, holds.2.le⟩

/-- A decimal that is rounded to a positive double is not zero. -/
theorem Holds.digits_pos (holds : interval.Holds decimal.toRat) (positive : 0 < interval.low) :
    0 < decimal.digits := by
  refine Nat.pos_of_ne_zero fun zero => ?_
  have low : 0 < interval.scaled interval.low := by
    unfold scaled
    positivity
  have reached := holds.within.1
  rw [Decimal.toRat, zero, Nat.cast_zero, zero_mul] at reached
  linarith

/-- A double lies between its neighbours on a grid. -/
theorem neighbours (interval : Interval) (exponent : Int) :
    let (amount, unit) := interval.quotient interval.value exponent
    ((amount / unit : Nat) : ℚ) * 10 ^ exponent ≤ interval.scaled interval.value ∧
      interval.scaled interval.value < ((amount / unit + 1 : Nat) : ℚ) * 10 ^ exponent := by
  have unit := quotient_pos interval interval.value exponent
  constructor
  · exact (quotient_le_iff _ _ _).2.mp (Nat.div_mul_le_self _ _)
  · rw [← not_le, ← (quotient_le_iff _ _ _).2, not_le, Nat.mul_comm]
    exact Nat.lt_mul_div_succ _ unit

theorem scaled_lt_scaled (interval : Interval) {first second : Nat} (less : first < second) :
    interval.scaled first < interval.scaled second :=
  mul_lt_mul_of_pos_right (by exact_mod_cast less) (by positivity)

/-- A grid that is finer than an interval has a number in it. -/
theorem exists_onGrid? {exponent : Int} (below : interval.low < interval.value)
    (above : interval.value < interval.high)
    (fine : (10 : ℚ) ^ exponent < interval.scaled interval.high - interval.scaled interval.low) :
    ∃ decimal, interval.onGrid? exponent = some decimal := by
  obtain ⟨left, right⟩ := neighbours interval exponent
  have low := scaled_lt_scaled interval below
  have high := scaled_lt_scaled interval above
  unfold onGrid?
  dsimp only
  split
  · exact ⟨_, rfl⟩
  · exact ⟨_, rfl⟩
  · exact ⟨_, rfl⟩
  · next outBelow outAbove =>
      -- the interval lies between the two neighbours, which are closer to each other than that
      exfalso
      rw [← Bool.not_eq_true, contains_iff] at outBelow outAbove
      have reachesLow := le_of_not_gt fun low => outBelow (.of_between low (left.trans_lt high))
      have reachesHigh := le_of_not_gt fun high => outAbove (.of_between (low.trans right) high)
      push_cast at reachesHigh
      linarith

/-- After its leading zeros a quotient has a digit. -/
theorem le_pow_leadingZeros {numerator denominator budget : Nat}
    (enough : denominator ≤ 10 ^ (budget + 1) * numerator) :
    denominator ≤ 10 ^ (leadingZeros numerator denominator budget + 1) * numerator := by
  induction budget generalizing numerator with
  | zero => exact enough
  | succ budget ih =>
    unfold leadingZeros
    split
    · next reached => simpa using reached
    · rw [Nat.pow_succ, Nat.mul_assoc] at enough
      have next := ih enough
      rwa [← Nat.mul_assoc, ← Nat.pow_succ] at next

/-- A number starts with a digit other than zero at its places. -/
theorem pow_length_toDigits_le {number : Nat} (positive : 0 < number) :
    10 ^ ((Nat.toDigits 10 number).length - 1) ≤ number := by
  by_cases one : (Nat.toDigits 10 number).length - 1 = 0
  · rw [one]
    exact positive
  · by_contra less
    have short := (Nat.length_toDigits_le_iff (by decide) (Nat.pos_of_ne_zero one)).mpr
      (Nat.lt_of_not_le less)
    omega

/-- The double is at least the power of ten of its first digit. -/
theorem pow_places_le (least : (interval.quotient interval.value 0).2 ≤
      10 ^ (330 + 1) * (interval.quotient interval.value 0).1) :
    (10 : ℚ) ^ (interval.places - 1) ≤ interval.scaled interval.value := by
  have unit := quotient_pos interval interval.value 0
  unfold places
  dsimp only
  split
  · next large =>
      have digits := pow_length_toDigits_le (Nat.div_pos large unit)
      have reached := (quotient_le_iff _ _ _).2.mp ((Nat.le_div_iff_mul_le unit).mp digits)
      have length := List.length_pos_iff.mpr (Nat.toDigits_ne_nil (b := 10)
        (n := (interval.quotient interval.value 0).1 / (interval.quotient interval.value 0).2))
      rw [← Nat.cast_one (R := Int), ← Nat.cast_sub length, zpow_natCast]
      simpa using reached
  · have reached := le_pow_leadingZeros least
    have equal := quotient_eq interval interval.value 0
    generalize leadingZeros _ _ 330 = count at reached ⊢
    have count' : -(count : Int) - 1 = -((count + 1 : Nat) : Int) := by omega
    rw [count', zpow_neg, zpow_natCast, inv_le_iff_one_le_mul₀ (by positivity)]
    have positive : (0 : ℚ) < (interval.quotient interval.value 0).2 := by exact_mod_cast unit
    rw [← mul_le_mul_iff_of_pos_right positive, one_mul, mul_right_comm, ← equal, zpow_zero,
      mul_one, mul_comm]
    exact_mod_cast reached

/-- Where seventeen digits are enough for the width of an interval, the shortest decimal is rounded
to its double. -/
theorem holds_shortest (below : interval.low < interval.value)
    (above : interval.value < interval.high)
    (wide : interval.value < (interval.high - interval.low) * 10 ^ 16)
    (least : (interval.quotient interval.value 0).2 ≤
      10 ^ (330 + 1) * (interval.quotient interval.value 0).1) :
    interval.Holds interval.shortest.toRat := by
  have fine : (10 : ℚ) ^ (interval.places - ((16 : Nat) + 1)) <
      interval.scaled interval.high - interval.scaled interval.low := by
    have split : interval.places - 1 = interval.places - ((16 : Nat) + 1) + (16 : Nat) := by
      push_cast
      ring
    have reached := pow_places_le least
    rw [split, zpow_add₀ (by norm_num), zpow_natCast] at reached
    have limits : interval.scaled interval.high - interval.scaled interval.low =
        interval.scaled (interval.high - interval.low) := by
      rw [scaled, scaled, scaled, Nat.cast_sub (below.trans above).le, sub_mul]
    have bound := scaled_lt_scaled interval wide
    have factor : interval.scaled ((interval.high - interval.low) * 10 ^ 16) =
        interval.scaled (interval.high - interval.low) * 10 ^ 16 := by
      rw [scaled, scaled, Nat.cast_mul, mul_right_comm]
      norm_num
    rw [limits]
    rw [factor] at bound
    exact lt_of_mul_lt_mul_right (reached.trans_lt bound) (by positivity)
  obtain ⟨decimal, onGrid⟩ := exists_onGrid? below above fine
  unfold shortest
  dsimp only
  cases found : (List.range 17).findSome? fun (count : Nat) =>
      interval.onGrid? (interval.places - (count + 1)) with
  | none =>
    have missing := List.findSome?_eq_none_iff.mp found 16 (List.mem_range.mpr (by decide))
    rw [missing] at onGrid
    cases onGrid
  | some decimal =>
    obtain ⟨count, -, onGrid⟩ := List.exists_of_findSome?_eq_some found
    exact holds_of_onGrid? onGrid

/-! ## No number is rounded to two doubles -/

/-- Where the numbers that are rounded to a double end. -/
def limit (bits : Nat) : ℚ := (ofBits bits).scaled (ofBits bits).high

/-- The interval of a double with a fraction, in a binade. -/
def ofParts (binade fraction : Nat) : Interval :=
  let mantissa := if binade = 0 then fraction else fraction + mantissaRange
  { value := 4 * mantissa
    low := if fraction = 0 ∧ 1 < binade then 4 * mantissa - 1 else 4 * mantissa - 2
    high := 4 * mantissa + 2
    exponent := (max binade 1 : Nat) - 1077
    closed := mantissa % 2 = 0 }

/-- Within a binade an interval starts where the one below it ends. -/
theorem scaled_low_ofParts_succ (binade fraction : Nat) :
    (ofParts binade (fraction + 1)).scaled (ofParts binade (fraction + 1)).low =
      (ofParts binade fraction).scaled (ofParts binade fraction).high := by
  have same : (ofParts binade (fraction + 1)).low = (ofParts binade fraction).high := by
    unfold ofParts
    dsimp only
    rw [if_neg fun both => Nat.succ_ne_zero _ both.1]
    split <;> omega
  have unit : (ofParts binade (fraction + 1)).exponent = (ofParts binade fraction).exponent := rfl
  rw [scaled, scaled, same, unit]

/-- So does the first interval of the next binade, the unit of which is twice as large above the
first two. -/
theorem scaled_low_ofParts_zero (binade : Nat) :
    (ofParts (binade + 1) 0).scaled (ofParts (binade + 1) 0).low =
      (ofParts binade (mantissaRange - 1)).scaled (ofParts binade (mantissaRange - 1)).high := by
  have range : 0 < mantissaRange := by decide
  cases binade with
  | zero =>
    have same : (ofParts 1 0).low = (ofParts 0 (mantissaRange - 1)).high := by decide
    have unit : (ofParts 1 0).exponent = (ofParts 0 (mantissaRange - 1)).exponent := by decide
    rw [scaled, scaled, same, unit]
  | succ binade =>
    have low : (ofParts (binade + 2) 0).low = 4 * mantissaRange - 1 := by
      unfold ofParts
      dsimp only
      rw [if_pos ⟨rfl, by omega⟩, if_neg (by omega), Nat.zero_add]
    have high :
        (ofParts (binade + 1) (mantissaRange - 1)).high = (4 * mantissaRange - 1) * 2 := by
      unfold ofParts
      dsimp only
      rw [if_neg (by omega)]
      omega
    have unit : (2 : ℚ) ^ (ofParts (binade + 2) 0).exponent =
        2 ^ (ofParts (binade + 1) (mantissaRange - 1)).exponent * 2 := by
      rw [← zpow_add_one₀ (by norm_num)]
      congr 1
      change ((max (binade + 2) 1 : Nat) : Int) - 1077 =
        ((max (binade + 1) 1 : Nat) : Int) - 1077 + 1
      omega
    rw [scaled, scaled, low, high, unit, Nat.cast_mul]
    push_cast
    ring

/-- The interval of a double starts where the one below it ends. -/
theorem scaled_low_succ (finite : bits + 1 < infinityBits) :
    (ofBits (bits + 1)).scaled (ofBits (bits + 1)).low = limit bits := by
  have parts (bits : Nat) :
      ofBits bits = ofParts (bits / mantissaRange % 0x800) (bits % mantissaRange) := rfl
  rw [limit, parts, parts bits]
  unfold infinityBits at finite
  by_cases inside : bits % mantissaRange + 1 < mantissaRange
  · have fraction : (bits + 1) % mantissaRange = bits % mantissaRange + 1 := by
      unfold mantissaRange at inside ⊢
      omega
    have binade : (bits + 1) / mantissaRange % 0x800 = bits / mantissaRange % 0x800 := by
      unfold mantissaRange at inside ⊢
      omega
    rw [fraction, binade]
    exact scaled_low_ofParts_succ _ _
  · have last : bits % mantissaRange = mantissaRange - 1 := by
      unfold mantissaRange at inside ⊢
      omega
    have fraction : (bits + 1) % mantissaRange = 0 := by
      unfold mantissaRange at inside ⊢
      omega
    have binade : (bits + 1) / mantissaRange % 0x800 = bits / mantissaRange % 0x800 + 1 := by
      unfold mantissaRange at inside ⊢
      omega
    rw [fraction, binade, last]
    exact scaled_low_ofParts_zero _

/-- A double lies strictly inside its interval. -/
theorem ofBits_strict (nonzero : bits ≠ 0) (bounded : bits < signBit) :
    (ofBits bits).low < (ofBits bits).value ∧ (ofBits bits).value < (ofBits bits).high := by
  have positive := low_pos_ofBits nonzero bounded
  unfold ofBits at positive ⊢
  dsimp only at positive ⊢
  constructor
  · split at positive <;> split <;> omega
  · omega

/-- The intervals of larger doubles end later. -/
theorem limit_lt_limit {others : Nat} (less : bits < others) (finite : others < infinityBits) :
    limit bits < limit others := by
  induction others with
  | zero => exact absurd less (Nat.not_lt_zero _)
  | succ others ih =>
    have bounded : others + 1 < signBit := finite.trans (by decide)
    obtain ⟨below, above⟩ := ofBits_strict (Nat.succ_ne_zero _) bounded
    have step : limit others < limit (others + 1) := by
      rw [← scaled_low_succ finite]
      exact scaled_lt_scaled _ (below.trans above)
    rcases Nat.lt_succ_iff_lt_or_eq.mp less with less | rfl
    · exact (ih less (by omega)).trans step
    · exact step

/-- The limits of an interval belong to it if the last bit of the double is zero. -/
theorem closed_ofBits (bits : Nat) : (ofBits bits).closed = decide (bits % 2 = 0) := by
  change decide _ = decide _
  congr 1
  unfold mantissaRange
  split <;> apply propext <;> omega

/-- The limits of an interval do not belong to it if the last bit of the double is one. -/
theorem Holds.within_of_odd (holds : (ofBits bits).Holds number) (odd : bits % 2 = 1) :
    (ofBits bits).scaled (ofBits bits).low < number ∧ number < limit bits := by
  have isOpen : (ofBits bits).closed = false := by
    rw [closed_ofBits, odd]
    rfl
  rw [Holds, isOpen] at holds
  exact holds

/-- No number is rounded to two doubles: of two it is rounded to, neither is the larger one. -/
theorem Holds.bits_le {others : Nat} (holds : (ofBits bits).Holds number)
    (holds' : (ofBits others).Holds number) (finite : bits < infinityBits) : bits ≤ others := by
  by_contra larger
  obtain ⟨below, rfl⟩ := Nat.exists_eq_succ_of_ne_zero (by omega : bits ≠ 0)
  have start := holds.within.1
  rw [scaled_low_succ finite] at start
  have stop := holds'.within.2
  by_cases next : below = others
  · -- of two doubles next to each other one has an odd last bit
    subst next
    rcases Nat.mod_two_eq_zero_or_one below with even | odd
    · have strict := (holds.within_of_odd (by omega)).1
      rw [scaled_low_succ finite] at strict
      exact absurd stop (not_le.mpr strict)
    · exact absurd start (not_le.mpr (holds'.within_of_odd odd).2)
  · have apart : limit others < limit below := limit_lt_limit (by omega) (by omega)
    exact absurd (start.trans stop) (not_le.mpr apart)

/-- The shortest decimal of a positive double is rounded to it. -/
theorem holds_shortest_ofBits (nonzero : bits ≠ 0) (bounded : bits < signBit) :
    (ofBits bits).Holds (ofBits bits).shortest.toRat := by
  obtain ⟨below, above⟩ := ofBits_strict nonzero bounded
  have positive : 0 < (ofBits bits).value := by omega
  have wide : (ofBits bits).value < ((ofBits bits).high - (ofBits bits).low) * 10 ^ 16 := by
    have fraction := Nat.mod_lt bits (by decide : 0 < mantissaRange)
    unfold ofBits mantissaRange at *
    dsimp only at *
    split at below <;> split <;> omega
  have least : ((ofBits bits).quotient (ofBits bits).value 0).2 ≤
      10 ^ (330 + 1) * ((ofBits bits).quotient (ofBits bits).value 0).1 := by
    have exponent : (-(ofBits bits).exponent).toNat ≤ 1076 := by
      change (-(((max (bits / mantissaRange % 0x800) 1 : Nat) : Int) - 1077)).toNat ≤ 1076
      omega
    calc twoTo (-(ofBits bits).exponent).toNat * tenTo (0 : Int).toNat
        = 2 ^ (-(ofBits bits).exponent).toNat := Nat.mul_one _
      _ ≤ 2 ^ 1076 := Nat.pow_le_pow_right (by decide) exponent
      _ ≤ 10 ^ (330 + 1) := by decide +kernel
      _ ≤ 10 ^ (330 + 1) * ((ofBits bits).quotient (ofBits bits).value 0).1 :=
          Nat.le_mul_of_pos_right _ (Nat.mul_pos (Nat.mul_pos positive (Nat.pow_pos (by decide)))
            (Nat.pow_pos (by decide)))
  exact holds_shortest below above wide least

end Double.Interval

/-! ## Different doubles have different texts -/

namespace Constant

open Float.Model.UnpackedFloat Double Decimal

/-- The text of a finite magnitude is read as a number that is rounded to it. -/
theorem exists_ofNumeral?_magnitudeText {magnitude : Nat} (finite : magnitude < infinityBits) :
    ∃ read, ofNumeral? (magnitudeText magnitude).toList = some read ∧
      (Interval.ofBits magnitude).Holds read.toRat := by
  rw [magnitudeText, if_neg (by omega)]
  by_cases zero : magnitude = 0
  · rw [if_pos zero, zero]
    refine ⟨⟨0, -1⟩, by decide, ?_⟩
    have closed : (Interval.ofBits 0).closed = true := by decide
    have low : (Interval.ofBits 0).low = 0 := by decide
    rw [Interval.Holds, if_pos closed, low]
    simp only [toRat, Interval.scaled, Nat.cast_zero, zero_mul, le_refl, true_and]
    positivity
  · rw [if_neg zero]
    have bounded : magnitude < signBit := finite.trans (by decide)
    have holds := Interval.holds_shortest_ofBits zero bounded
    have positive := holds.digits_pos (Interval.low_pos_ofBits zero bounded)
    obtain ⟨read, found, same⟩ := exists_ofNumeral?_write realStyle positive
    exact ⟨read, found, same ▸ holds⟩

/-- Different magnitudes have different texts. -/
theorem magnitudeText_inj {first second : Nat} (bounded : first ≤ infinityBits)
    (bounded' : second ≤ infinityBits) (same : magnitudeText first = magnitudeText second) :
    first = second := by
  -- only the text of infinity is not read as a number
  have infinite : ofNumeral? (magnitudeText infinityBits).toList = none := by decide
  rcases Nat.lt_or_eq_of_le bounded with finite | rfl
  · obtain ⟨read, found, holds⟩ := exists_ofNumeral?_magnitudeText finite
    rcases Nat.lt_or_eq_of_le bounded' with finite' | rfl
    · obtain ⟨read', found', holds'⟩ := exists_ofNumeral?_magnitudeText finite'
      rw [same, found'] at found
      cases found
      exact Nat.le_antisymm (holds.bits_le holds' finite) (holds'.bits_le holds finite')
    · rw [same, infinite] at found
      cases found
  · rcases Nat.lt_or_eq_of_le bounded' with finite' | equal
    · obtain ⟨read', found', -⟩ := exists_ofNumeral?_magnitudeText finite'
      rw [← same, infinite] at found'
      cases found'
    · exact equal.symm

/-- A double is undefined if the bits of its exponent are all set and those of its mantissa are not
all clear. -/
theorem isNaN_iff (value : Float) : value.isNaN = true ↔
    @unpackExponent Float.Model.Format.binary64 value.toBits.toBitVec = -1#11 ∧
      @unpackMantissa Float.Model.Format.binary64 value.toBits.toBitVec ≠ 0#52 := by
  unfold Float.isNaN Float.Model.isNaN Float.Model.unpack unpack
  dsimp only
  change _ ↔ @unpackExponent Float.Model.Format.binary64 value.toModel.toBits.toBitVec = -1#11 ∧ _
  by_cases exponent :
      @unpackExponent Float.Model.Format.binary64 value.toModel.toBits.toBitVec = -1#11
  · rw [if_pos exponent]
    by_cases mantissa :
        @unpackMantissa Float.Model.Format.binary64 value.toModel.toBits.toBitVec = 0#52
    · rw [if_pos mantissa]
      exact iff_of_false Bool.false_ne_true fun both => both.2 mantissa
    · rw [if_neg mantissa]
      exact iff_of_true rfl ⟨exponent, mantissa⟩
  · rw [if_neg exponent]
    refine iff_of_false ?_ fun both => exponent both.1
    rw [apply_ite isNaN, apply_dite isNaN]
    change ¬(if _ then if _ then false else false else false) = true
    rw [ite_self, ite_self]
    exact Bool.false_ne_true

theorem eq_of_toBits {first : Float} (same : first.toBits = second.toBits) : first = second := by
  obtain ⟨⟨bits, valid⟩⟩ := first
  obtain ⟨⟨bits', valid'⟩⟩ := second
  cases (same : bits = bits')
  rfl

/-- There is one undefined double. -/
theorem eq_of_isNaN {first : Float} (undefined : first.isNaN = true)
    (undefined' : second.isNaN = true) : first = second := by
  have packed {value : Float} (undefined : value.isNaN = true) :
      value.toBits.toBitVec = packedNaN Float.Model.Format.binary64 := by
    obtain ⟨exponent, mantissa⟩ := (isNaN_iff value).mp undefined
    exact value.toModel.valid.eq_packedNaN exponent mantissa
  exact eq_of_toBits (UInt64.eq_of_toBitVec_eq ((packed undefined).trans (packed undefined').symm))

/-- The bits of the exponent are all set from infinity on. -/
theorem unpackExponent_of_infinite {bits : UInt64} (infinite : infinityBits ≤ bits.toNat % signBit) :
    @unpackExponent Float.Model.Format.binary64 bits.toBitVec = -1#11 := by
  apply BitVec.eq_of_toNat_eq
  unfold unpackExponent
  rw [BitVec.toNat_cast, BitVec.extractLsb_toNat, UInt64.toNat_toBitVec, Nat.shiftRight_eq_div_pow]
  unfold signBit infinityBits at infinite
  change bits.toNat / 0x10000000000000 % 0x800 = 0x7FF
  omega

/-- The magnitude of a number is at most that of infinity. -/
theorem magnitude_le (defined : value.isNaN = false) :
    value.toBits.toNat % signBit ≤ infinityBits := by
  by_contra beyond
  refine absurd ((isNaN_iff value).mpr ⟨?_, fun clear => ?_⟩) (Bool.eq_false_iff.mp defined)
  · exact unpackExponent_of_infinite (Nat.lt_of_not_le beyond).le
  · have bits := congrArg BitVec.toNat clear
    unfold unpackMantissa at bits
    rw [BitVec.toNat_cast, BitVec.extractLsb_toNat, UInt64.toNat_toBitVec, Nat.shiftRight_zero]
      at bits
    change value.toBits.toNat % 0x10000000000000 = 0 at bits
    unfold signBit infinityBits at beyond
    omega

/-- The sign of a number is split off its text. -/
theorem splitSign_realText (defined : value.isNaN = false) :
    splitSign (realText value).toList =
      (decide (signBit ≤ value.toBits.toNat),
        (magnitudeText (value.toBits.toNat % signBit)).toList) := by
  have bounded := Nat.mod_lt value.toBits.toNat (by decide : 0 < signBit)
  have unsigned : splitSign
      (magnitudeText (value.toBits.toNat % signBit)).toList =
        (false, (magnitudeText (value.toBits.toNat % signBit)).toList) := by
    by_cases infinite : value.toBits.toNat % signBit = infinityBits
    · rw [infinite]
      decide
    · exact (isNumber_magnitudeText bounded infinite).splitSign_eq
  rw [realText_of_defined defined, String.toList_append]
  by_cases negative : signBit ≤ value.toBits.toNat
  · rw [if_pos negative, decide_eq_true negative]
    rfl
  · rw [if_neg negative, decide_eq_false negative]
    exact unsigned

/-- The text of a number is not that of the undefined double. -/
theorem realText_ne_of_defined (defined : value.isNaN = false) : realText value ≠ "NaN" := by
  intro same
  have split := splitSign_realText defined
  rw [same] at split
  have text : "NaN".toList = (magnitudeText (value.toBits.toNat % signBit)).toList :=
    congrArg Prod.snd split
  rcases Nat.lt_or_eq_of_le (magnitude_le defined) with finite | infinite
  · obtain ⟨read, found, -⟩ := exists_ofNumeral?_magnitudeText finite
    rw [← text] at found
    cases found
  · rw [infinite] at text
    exact absurd text (by decide)

/-- Different doubles have different texts. -/
theorem realText_inj {first : Float} (same : realText first = realText second) :
    first = second := by
  have undefinedText {value : Float} (undefined : value.isNaN = true) : realText value = "NaN" := by
    rw [realText, if_pos undefined]
  by_cases undefined : first.isNaN = true
  · by_cases undefined' : second.isNaN = true
    · exact eq_of_isNaN undefined undefined'
    · rw [undefinedText undefined] at same
      exact absurd same.symm (realText_ne_of_defined (Bool.eq_false_iff.mpr undefined'))
  · have defined := Bool.eq_false_iff.mpr undefined
    by_cases undefined' : second.isNaN = true
    · rw [undefinedText undefined'] at same
      exact absurd same (realText_ne_of_defined defined)
    · have defined' := Bool.eq_false_iff.mpr undefined'
      -- the texts agree in the sign and in the magnitude, which are all the bits
      have split := splitSign_realText defined
      rw [same, splitSign_realText defined'] at split
      obtain ⟨sign, text⟩ := Prod.mk.inj split
      have magnitude := magnitudeText_inj (magnitude_le defined') (magnitude_le defined)
        (String.toList_inj.mp text)
      apply eq_of_toBits
      apply UInt64.toNat_inj.mp
      have sign := decide_eq_decide.mp sign
      have bound := first.toBits.toNat_lt
      have bound' := second.toBits.toNat_lt
      unfold signBit at sign magnitude
      omega

/-! ## Different constants have different texts -/

/-- A real number is not made of digits only. -/
theorem all_isDigit_of_isNumber {text : String} (isNumber : Lexeme.IsNumber .real text) :
    text.toList.all Char.isDigit = false := by
  obtain ⟨whole, point, exponent, spelling, -, isFraction, isExponent, real⟩ := isNumber
  rw [spelling, List.all_append, List.all_append]
  rcases isFraction with rfl | ⟨digits, rfl, -⟩
  · rcases isExponent with rfl | ⟨mark, sign, digits, rfl, marked, -⟩
    · cases real
    · rcases marked with rfl | rfl <;> simp
  · simp

/-- The text of a double is not that of an integer. -/
theorem integer?_realText (value : Float) : integer? (realText value).toList = none := by
  by_cases undefined : value.isNaN = true
  · rw [realText, if_pos undefined]
    decide
  · have defined := Bool.eq_false_iff.mpr undefined
    have bounded := Nat.mod_lt value.toBits.toNat (by decide : 0 < signBit)
    have notDigits : (magnitudeText (value.toBits.toNat % signBit)).toList.all Char.isDigit =
        false := by
      by_cases infinite : value.toBits.toNat % signBit = infinityBits
      · rw [infinite]
        decide
      · exact all_isDigit_of_isNumber (isNumber_magnitudeText bounded infinite)
    rw [integer?, splitSign_realText defined]
    dsimp only
    rw [if_neg fun both => Bool.false_ne_true (notDigits.symm.trans both.2)]

/-- The text of a constant is read as an integer if it is one. -/
theorem integer?_text (constant : Constant) : integer? constant.text.toList =
    match constant with
    | int value => some value
    | _ => none := by
  cases constant with
  | int value => exact integer?_toString value
  | real value => exact integer?_realText value
  | bool value => cases value <;> decide

/-- Different constants have different texts. -/
theorem text_inj {first second : Constant} (same : first.text = second.text) : first = second := by
  have asInteger := integer?_text first
  have asReal (value : Float) (truth : Bool) : realText value ≠ boolSource truth := by
    intro same
    have read := isSome_realOfText?_realText value
    rw [same] at read
    cases truth <;> exact absurd read (by decide)
  rw [same, integer?_text second] at asInteger
  cases first with
  | int value =>
    cases second with
    | int value' => cases asInteger; rfl
    | real | bool => cases asInteger
  | real value =>
    cases second with
    | int => cases asInteger
    | real value' => rw [realText_inj same]
    | bool truth => exact absurd same (asReal value truth)
  | bool truth =>
    cases second with
    | int => cases asInteger
    | real value => exact absurd same.symm (asReal value truth)
    | bool truth' =>
      have equal : boolSource truth = boolSource truth' → truth = truth' := by
        cases truth <;> cases truth' <;> decide
      rw [equal same]

end Constant

end ClassLang
