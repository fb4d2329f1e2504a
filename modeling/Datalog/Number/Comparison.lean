import Datalog.Number.Line

/-!
# Comparing numbers

Floats are put in order by their words, once the zeros and the NaNs have one word each. An
integer and a float are compared by the integral part of the float and then by what stands
behind its point, so that no integer is ever rounded. Both ways follow the number line:
`Binary64.totalCmp_normalized` and `Binary64.compareInt64?_eq`.
-/

namespace Datalog

namespace Binary64

/-- The float itself, except that there is one zero and one NaN. -/
def normalized (number : Binary64) : Binary64 :=
  if number.magnitude = 0 then ofMagnitude false 0
  else if number.isNaN then nan
  else number

/-- Every NaN is normalized to the same one. -/
theorem normalized_of_isNaN {number : Binary64} (isNotANumber : number.isNaN = true) :
    number.normalized = nan := by
  have nonzero : number.magnitude ≠ 0 := by
    intro zero
    rw [isNaN, zero] at isNotANumber
    cases isNotANumber
  rw [normalized, if_neg nonzero, if_pos isNotANumber]

/-- The place of a word among all words: negative ones come first, in reverse. -/
def rank (number : Binary64) : Int :=
  if number.isNegative then -1 - number.magnitude else number.magnitude

/-- The total order of words, which tells zeros and NaNs apart. -/
def totalCmp (left right : Binary64) : Ordering :=
  compare left.rank right.rank

/-- How a 64-bit integer compares with a float; nothing if that is a NaN. A float beyond all
64-bit integers is decided by its side. -/
def compareInt64? (integer : Int64) (number : Binary64) : Option Ordering :=
  let point := NumberLine.ofFloat number
  if number.isNaN then none
  else if ((NumberLine.ofInt (2 ^ 63)).cmp point).isLE then some .lt
  else if point.cmp (NumberLine.ofInt (-(2 ^ 63))) = .lt then some .gt
  else
    let whole := number.units.tdiv (2 ^ 1074)
    let byFraction := (NumberLine.ofInt whole).cmp point
    some ((compare integer.toInt whole).then byFraction)

end Binary64

namespace NumberLine

/-- Points of the finite stretch compare by their places. -/
theorem cmp_finite (left right : Int) : (finite left).cmp (finite right) = compare left right := by
  simp only [cmp, compareLex, compareOn, stretch, place, Std.ReflOrd.compare_self,
    Ordering.eq_then]

/-- Stretching the line does not change its order. -/
theorem compare_mul_right (left right : Int) {factor : Int} (positive : 0 < factor) :
    compare (left * factor) (right * factor) = compare left right := by
  rcases Int.lt_trichotomy left right with less | rfl | greater
  · rw [Int.compare_eq_lt.2 less, Int.compare_eq_lt]
    exact Int.mul_lt_mul_of_pos_right less positive
  · simp
  · rw [Int.compare_eq_gt.2 greater, Int.compare_eq_gt]
    exact Int.mul_lt_mul_of_pos_right greater positive

/-- Integers compare as their points do. -/
theorem cmp_ofInt (left right : Int) : (ofInt left).cmp (ofInt right) = compare left right := by
  rw [ofInt, ofInt, cmp_finite]
  exact compare_mul_right left right (Int.pow_pos (by decide))

/-- The rank that the floats at a point of the line have once they are normalized. -/
inductive Ranked : Int → NumberLine → Prop where
  | negInfinity : Ranked (-1 - Binary64.infinityMagnitude) .negInfinity
  | negative {magnitude : Nat} (positive : 0 < magnitude)
      (isFinite : magnitude < Binary64.infinityMagnitude) :
      Ranked (-1 - magnitude) (.finite (-(Binary64.unitsOfMagnitude magnitude : Int)))
  | nonnegative {magnitude : Nat} (isFinite : magnitude < Binary64.infinityMagnitude) :
      Ranked magnitude (.finite (Binary64.unitsOfMagnitude magnitude))
  | posInfinity : Ranked Binary64.infinityMagnitude .posInfinity
  | nan : Ranked Binary64.nan.magnitude .nan

/-- Magnitudes compare as the numbers that they encode. -/
theorem compare_unitsOfMagnitude (left right : Nat) :
    compare (Binary64.unitsOfMagnitude left : Int) (Binary64.unitsOfMagnitude right) =
      compare (left : Int) right := by
  rcases Nat.lt_trichotomy left right with less | rfl | greater
  · have unitsLess := Binary64.unitsOfMagnitude_lt less
    rw [Int.compare_eq_lt.2 (by omega), Int.compare_eq_lt.2 (by omega)]
  · rw [Std.ReflOrd.compare_self, Std.ReflOrd.compare_self]
  · have unitsGreater := Binary64.unitsOfMagnitude_lt greater
    rw [Int.compare_eq_gt.2 (by omega), Int.compare_eq_gt.2 (by omega)]

/-- Reflecting the line reverses its order. -/
theorem compare_sub_left (start left right : Int) :
    compare (start - left) (start - right) = compare right left := by
  rcases Int.lt_trichotomy left right with less | rfl | greater
  · rw [Int.compare_eq_gt.2 less, Int.compare_eq_gt.2 (by omega)]
  · rw [Std.ReflOrd.compare_self, Std.ReflOrd.compare_self]
  · rw [Int.compare_eq_lt.2 greater, Int.compare_eq_lt.2 (by omega)]

/-- Points compare as their ranks do. -/
theorem Ranked.compare_eq {leftRank rightRank : Int} {left right : NumberLine}
    (isLeft : Ranked leftRank left) (isRight : Ranked rightRank right) :
    compare leftRank rightRank = left.cmp right := by
  have beyond : Binary64.infinityMagnitude < Binary64.nan.magnitude := by decide
  cases isLeft <;> cases isRight
  case negative.negative =>
    rw [cmp_finite, compare_sub_left, ← Int.zero_sub, ← Int.zero_sub (Binary64.unitsOfMagnitude _),
      compare_sub_left, compare_unitsOfMagnitude]
  case nonnegative.nonnegative => rw [cmp_finite, compare_unitsOfMagnitude]
  case negative.nonnegative positive _ _ _ =>
    have unitsPositive := Binary64.unitsOfMagnitude_lt positive
    rw [cmp_finite, Int.compare_eq_lt.2 (by omega), Int.compare_eq_lt.2 (by omega)]
  case nonnegative.negative positive _ =>
    have unitsPositive := Binary64.unitsOfMagnitude_lt positive
    rw [cmp_finite, Int.compare_eq_gt.2 (by omega), Int.compare_eq_gt.2 (by omega)]
  case negInfinity.negInfinity => exact Std.ReflOrd.compare_self
  case posInfinity.posInfinity => exact Std.ReflOrd.compare_self
  case nan.nan => exact Std.ReflOrd.compare_self
  -- Points of different stretches are in the order of these.
  all_goals
    generalize Binary64.infinityMagnitude = infinite, Binary64.nan.magnitude = beyondAll at *
    first
    | exact Int.compare_eq_lt.2 (by omega)
    | exact Int.compare_eq_gt.2 (by omega)

end NumberLine

namespace Binary64

/-- A normalized float has the rank of its point. -/
theorem ranked_normalized (number : Binary64) :
    NumberLine.Ranked number.normalized.rank (NumberLine.ofFloat number) := by
  by_cases zero : number.magnitude = 0
  · have notNaN : number.isNaN = false := by simp [isNaN, zero]
    have notInfinite : number.isInfinite = false := by
      rw [isInfinite, zero]
      decide
    have atZero : NumberLine.ofFloat number = .finite (unitsOfMagnitude 0) := by
      have noUnits : unitsOfMagnitude 0 = 0 := by decide
      simp [NumberLine.ofFloat, notNaN, notInfinite, units, zero, noUnits]
    have rankZero : number.normalized.rank = (0 : Nat) := by
      rw [normalized, if_pos zero]
      decide
    rw [atZero, rankZero]
    exact .nonnegative (by decide)
  rw [normalized, if_neg zero]
  by_cases isNotANumber : number.isNaN = true
  · rw [if_pos isNotANumber, NumberLine.ofFloat_eq_nan_iff.2 isNotANumber]
    exact .nan
  rw [if_neg isNotANumber, rank, NumberLine.ofFloat, if_neg isNotANumber]
  by_cases infinite : number.isInfinite = true
  · have largest : number.magnitude = infinityMagnitude := beq_iff_eq.1 infinite
    rw [if_pos infinite, largest]
    cases number.isNegative
    · exact .posInfinity
    · exact .negInfinity
  · have isFinite : number.magnitude < infinityMagnitude := by
      simp only [isNaN, decide_eq_true_eq, isInfinite, beq_iff_eq] at isNotANumber infinite
      omega
    rw [if_neg infinite, units]
    cases number.isNegative
    · exact .nonnegative isFinite
    · exact .negative (Nat.pos_of_ne_zero zero) isFinite

/-- Normalized floats are in the order of their points. -/
theorem totalCmp_normalized (left right : Binary64) :
    left.normalized.totalCmp right.normalized =
      (NumberLine.ofFloat left).cmp (NumberLine.ofFloat right) :=
  (ranked_normalized left).compare_eq (ranked_normalized right)

/-- The integral part of a number, and then the rest of it, decide how an integer compares
with it. -/
theorem compare_mul_eq_then (integer units : Int) {one : Int} (positive : 0 < one) :
    compare (integer * one) units =
      (compare integer (units.tdiv one)).then (compare (units.tdiv one * one) units) := by
  have split := Int.tmod_add_mul_tdiv units one
  have above := Int.tmod_lt_of_pos units positive
  have below := Int.lt_tmod_of_pos units positive
  rw [Int.mul_comm one] at split
  generalize units.tdiv one = whole at split ⊢
  rcases Int.lt_trichotomy integer whole with less | rfl | greater
  · have next : (integer + 1) * one ≤ whole * one :=
      Int.mul_le_mul_of_nonneg_right less (Int.le_of_lt positive)
    rw [Int.add_mul, Int.one_mul] at next
    rw [Int.compare_eq_lt.2 less, Int.compare_eq_lt.2 (by omega)]
    rfl
  · rw [Std.ReflOrd.compare_self, Ordering.eq_then]
  · have next : (whole + 1) * one ≤ integer * one :=
      Int.mul_le_mul_of_nonneg_right greater (Int.le_of_lt positive)
    rw [Int.add_mul, Int.one_mul] at next
    rw [Int.compare_eq_gt.2 greater, Int.compare_eq_gt.2 (by omega)]
    rfl

/-- An integer and a float compare as their points do, unless the float is a NaN. -/
theorem compareInt64?_eq (integer : Int64) (number : Binary64) :
    compareInt64? integer number =
      if number.isNaN then none
      else some ((NumberLine.ofInt integer.toInt).cmp (NumberLine.ofFloat number)) := by
  unfold compareInt64?
  by_cases isNotANumber : number.isNaN = true
  · rw [if_pos isNotANumber, if_pos isNotANumber]
  rw [if_neg isNotANumber, if_neg isNotANumber]
  by_cases above : ((NumberLine.ofInt (2 ^ 63)).cmp (NumberLine.ofFloat number)).isLE = true
  · have inRange : (NumberLine.ofInt integer.toInt).cmp (.ofInt (2 ^ 63)) = .lt := by
      rw [NumberLine.cmp_ofInt, Int.compare_eq_lt]
      exact integer.toInt_lt
    rw [if_pos above, Std.TransCmp.lt_of_lt_of_isLE inRange above]
  rw [if_neg above]
  by_cases below : (NumberLine.ofFloat number).cmp (.ofInt (-(2 ^ 63))) = .lt
  · have inRange : ((NumberLine.ofInt (-(2 ^ 63))).cmp (.ofInt integer.toInt)).isLE = true := by
      rw [NumberLine.cmp_ofInt, Int.isLE_compare]
      exact integer.le_toInt
    rw [if_pos below, Std.OrientedCmp.gt_of_lt (Std.TransCmp.lt_of_lt_of_isLE below inRange)]
  rw [if_neg below]
  -- An infinity would lie beyond one of the two bounds.
  have isFinite : NumberLine.ofFloat number = .finite number.units := by
    revert above below
    rw [NumberLine.ofFloat, if_neg isNotANumber]
    split
    next =>
      split
      next => exact fun _ below => absurd rfl below
      next => exact fun above _ => absurd rfl above
    next => exact fun _ _ => rfl
  simp only [isFinite, NumberLine.ofInt, NumberLine.cmp_finite]
  rw [compare_mul_eq_then integer.toInt _ (Int.pow_pos (by decide))]

end Binary64

end Datalog
