import Mathlib.Algebra.Order.Field.Power
import Mathlib.Data.Rat.Cast.Order
import Mathlib.Order.Compare
import Mathlib.Order.WithBot
import Mathlib.Tactic.NormNum
import Datalog.Value.Equality

/-!
# What values denote

A value denotes itself, up to the representation of numbers: an integer denotes a rational,
and a float the dyadic rational that its sign, exponent and fraction bits encode, an infinity
or the one point above it that all NaNs share. These meanings have the order of an extended
line of rationals, which knows nothing of the words and cases by which values are compared.

The number line is the bridge between the two: each of its points stands for an extended
rational, in the same order (`NumberLine.compare_toExtended`), and the points of integers and
floats stand for what these denote. `Value.followsMeaning` states what equality, order and
hashing make of it.
-/

namespace Datalog

/-- The rationals between two infinities, and a point above everything else. -/
abbrev ExtendedRat :=
  WithTop (WithTop (WithBot ℚ))

namespace ExtendedRat

/-- The number below all rationals. -/
def negInfinity : ExtendedRat :=
  ((⊥ : WithBot ℚ) : WithTop (WithBot ℚ))

/-- A rational number. -/
def ofRat (number : ℚ) : ExtendedRat :=
  ((number : WithBot ℚ) : WithTop (WithBot ℚ))

/-- The number above all rationals. -/
def posInfinity : ExtendedRat :=
  ((⊤ : WithTop (WithBot ℚ)) : ExtendedRat)

/-- The point above all numbers. -/
def nan : ExtendedRat :=
  ⊤

/-- Rationals keep their order. -/
theorem ofRat_strictMono : StrictMono ofRat := fun _ _ less =>
  WithTop.coe_lt_coe.2 (WithTop.coe_lt_coe.2 (WithBot.coe_lt_coe.2 less))

/-- The lower infinity is below every rational. -/
theorem negInfinity_lt_ofRat (number : ℚ) : negInfinity < ofRat number :=
  WithTop.coe_lt_coe.2 (WithTop.coe_lt_coe.2 (WithBot.bot_lt_coe number))

/-- The upper infinity is above every rational. -/
theorem ofRat_lt_posInfinity (number : ℚ) : ofRat number < posInfinity :=
  WithTop.coe_lt_coe.2 (WithTop.coe_lt_top _)

/-- The infinities are below the last point. -/
theorem posInfinity_lt_nan : posInfinity < nan :=
  WithTop.coe_lt_top _

end ExtendedRat

namespace Binary64

/-- The first bit. -/
def signBit (number : Binary64) : Nat :=
  number.bits.toNat / 2 ^ 63

/-- The eleven bits behind the sign. -/
def exponentBits (number : Binary64) : Nat :=
  number.bits.toNat / 2 ^ 52 % 2 ^ 11

/-- The last fifty-two bits. -/
def fractionBits (number : Binary64) : Nat :=
  number.bits.toNat % 2 ^ 52

/-- The absolute value that the exponent and the fraction of a finite number encode. The
lowest exponent is that of the subnormal numbers, which have no implicit leading one. -/
def absoluteValue (exponent fraction : Nat) : ℚ :=
  if exponent = 0 then fraction * 2 ^ (-1074 : Int)
  else (2 ^ 52 + fraction) * 2 ^ ((exponent : Int) - 1075)

/-- What the bits of a number denote. -/
def meaning (number : Binary64) : ExtendedRat :=
  if number.exponentBits = 2047 then
    if number.fractionBits ≠ 0 then .nan
    else if number.signBit = 1 then .negInfinity
    else .posInfinity
  else .ofRat ((-1) ^ number.signBit * absoluteValue number.exponentBits number.fractionBits)

/-- The exponent is the upper part of the magnitude. -/
theorem exponentBits_eq (number : Binary64) :
    number.exponentBits = number.magnitude / 2 ^ 52 := by
  unfold exponentBits magnitude
  omega

/-- The fraction is the lower part of the magnitude. -/
theorem fractionBits_eq (number : Binary64) :
    number.fractionBits = number.magnitude % 2 ^ 52 := by
  unfold fractionBits magnitude
  omega

/-- The sign bit is set for negative numbers. -/
theorem signBit_eq (number : Binary64) : number.signBit = number.isNegative.toNat := by
  have bound := number.bits.toNat_lt
  rw [signBit, isNegative]
  by_cases negative : 2 ^ 63 ≤ number.bits.toNat
  · rw [decide_eq_true negative, Bool.toNat_true]
    omega
  · rw [decide_eq_false negative, Bool.toNat_false]
    omega

/-- The units of a magnitude, as a rational number. -/
theorem unitsOfMagnitude_div (magnitude : Nat) :
    (unitsOfMagnitude magnitude : ℚ) / 2 ^ 1074 =
      absoluteValue (magnitude / 2 ^ 52) (magnitude % 2 ^ 52) := by
  rw [unitsOfMagnitude, absoluteValue, div_eq_mul_inv, ← zpow_natCast, ← zpow_neg]
  by_cases isLow : magnitude < 2 ^ 52
  · rw [if_pos isLow, if_pos (Nat.div_eq_of_lt isLow), Nat.mod_eq_of_lt isLow]
    rfl
  · have binade : magnitude / 2 ^ 52 ≠ 0 := by omega
    rw [if_neg isLow, if_neg binade, Nat.cast_mul, Nat.cast_pow, mul_assoc, Nat.cast_ofNat,
      ← zpow_natCast, ← zpow_add₀ two_ne_zero]
    have exponent : ((magnitude / 2 ^ 52 - 1 : Nat) : Int) + -((1074 : Nat) : Int) =
        (magnitude / 2 ^ 52 : Nat) - 1075 := by omega
    rw [exponent, Nat.cast_add, Nat.cast_pow, Nat.cast_ofNat]

end Binary64

namespace NumberLine

/-- The number that a point of the line stands for. -/
def toExtended : NumberLine → ExtendedRat
  | negInfinity => .negInfinity
  | finite units => .ofRat (units / 2 ^ 1074)
  | posInfinity => .posInfinity
  | nan => .nan

/-- Points further to the right stand for larger numbers. -/
theorem toExtended_lt {left right : NumberLine} (less : left.cmp right = .lt) :
    left.toExtended < right.toExtended := by
  have belowAll (number : ℚ) := ExtendedRat.negInfinity_lt_ofRat number
  have aboveAll (number : ℚ) := ExtendedRat.ofRat_lt_posInfinity number
  have last := ExtendedRat.posInfinity_lt_nan
  cases left <;> cases right
  case finite.finite left right =>
    rw [cmp_finite, Int.compare_eq_lt] at less
    have scaled : (left : ℚ) / 2 ^ 1074 < right / 2 ^ 1074 :=
      div_lt_div_of_pos_right (Int.cast_lt.2 less) (by positivity)
    exact ExtendedRat.ofRat_strictMono scaled
  case negInfinity.finite => exact belowAll _
  case negInfinity.posInfinity => exact (belowAll 0).trans (aboveAll 0)
  case negInfinity.nan => exact ((belowAll 0).trans (aboveAll 0)).trans last
  case finite.posInfinity => exact aboveAll _
  case finite.nan => exact (aboveAll _).trans last
  case posInfinity.nan => exact last
  -- In all other cases the right point lies in the same stretch or further to the left.
  all_goals cases less

/-- The line has the order of the numbers that its points stand for. -/
theorem compare_toExtended (left right : NumberLine) :
    compare left.toExtended right.toExtended = left.cmp right := by
  cases order : left.cmp right with
  | lt => exact compare_lt_iff_lt.2 (toExtended_lt order)
  | eq => rw [cmp_eq_iff.1 order, compare_eq_iff_eq]
  | gt => exact compare_gt_iff_gt.2 (toExtended_lt (Std.OrientedCmp.gt_iff_lt.1 order))

/-- The point of an integer stands for it. -/
theorem toExtended_ofInt (integer : Int) : (ofInt integer).toExtended = .ofRat integer := by
  have nonzero : (2 : ℚ) ^ 1074 ≠ 0 := by positivity
  rw [ofInt, toExtended, Int.cast_mul, Int.cast_pow, Int.cast_ofNat,
    mul_div_cancel_right₀ _ nonzero]

/-- The point of a float stands for what its bits denote. -/
theorem toExtended_ofFloat (number : Binary64) :
    (ofFloat number).toExtended = number.meaning := by
  have infinite : Binary64.infinityMagnitude = 2047 * 2 ^ 52 := rfl
  have bounded : number.magnitude < 2 ^ 63 := Nat.mod_lt _ (by decide)
  rw [Binary64.meaning, Binary64.exponentBits_eq, Binary64.fractionBits_eq,
    Binary64.signBit_eq]
  by_cases isNotANumber : number.isNaN = true
  · have beyond := of_decide_eq_true isNotANumber
    have lastExponent : number.magnitude / 2 ^ 52 = 2047 := by omega
    have someFraction : number.magnitude % 2 ^ 52 ≠ 0 := by omega
    rw [ofFloat_eq_nan_iff.2 isNotANumber, if_pos lastExponent, if_pos someFraction]
    rfl
  by_cases isInfinite : number.isInfinite = true
  · have largest := beq_iff_eq.1 isInfinite
    have lastExponent : number.magnitude / 2 ^ 52 = 2047 := by omega
    have noFraction : ¬ number.magnitude % 2 ^ 52 ≠ 0 := by omega
    rw [ofFloat, if_neg isNotANumber, if_pos isInfinite, if_pos lastExponent, if_neg noFraction]
    cases number.isNegative <;> rfl
  have isFinite : number.magnitude < Binary64.infinityMagnitude := by
    rw [Binary64.isNaN, decide_eq_true_eq] at isNotANumber
    rw [Binary64.isInfinite, beq_iff_eq] at isInfinite
    omega
  have earlierExponent : number.magnitude / 2 ^ 52 ≠ 2047 := by omega
  rw [ofFloat, if_neg isNotANumber, if_neg isInfinite, if_neg earlierExponent, toExtended,
    Binary64.units, ← Binary64.unitsOfMagnitude_div]
  cases number.isNegative
  · simp
  · simp [neg_div]

end NumberLine

/-- What a value denotes, apart from its kind. -/
inductive Meaning where
  | nothing
  | truth (truth : Bool)
  | number (number : ExtendedRat)
  | text (text : String)

/-- The order of what values of one kind denote. -/
noncomputable def Meaning.cmp : Meaning → Meaning → Ordering
  | truth left, truth right => compare left right
  | number left, number right => compare left right
  | text left, text right => compare left right
  | _, _ => .eq

namespace Value

/-- What a value denotes: itself, unless it is a number. -/
def meaning : Value → Meaning
  | null => .nothing
  | bool truth => .truth truth
  | int integer => .number (.ofRat integer.toInt)
  | float number => .number number.meaning
  | string text => .text text
  | keyword name => .text name

/-- A number denotes what its point stands for. -/
theorem meaning_of_point {value : Value} {point : NumberLine}
    (isPoint : value.point? = some point) : value.meaning = .number point.toExtended := by
  cases value <;> cases isPoint
  case int.refl integer => rw [meaning, NumberLine.toExtended_ofInt]
  case float.refl number => rw [meaning, NumberLine.toExtended_ofFloat]

/-- Values are in the order of their kinds, and those of one kind in the order of what they
denote. -/
theorem cmp_eq_meaning (left right : Value) :
    left.cmp right =
      (compare left.kind.rank right.kind.rank).then (left.meaning.cmp right.meaning) := by
  by_cases same : left.kind = right.kind
  · rw [same, Std.ReflOrd.compare_self, Ordering.eq_then]
    cases left <;> cases right <;> simp only [kind, reduceCtorEq] at same
    case int.int | int.float | float.int | float.float =>
      rw [cmp_of_points rfl rfl, meaning_of_point rfl, meaning_of_point rfl, Meaning.cmp,
        NumberLine.compare_toExtended]
    all_goals rfl
  · rw [cmp_of_kind_ne same]
    cases order : compare left.kind.rank right.kind.rank
    case eq => exact absurd (Kind.rank_inj.1 (Std.LawfulEqCmp.compare_eq_iff_eq.1 order)) same
    case lt | gt => rfl

/-- Values of one kind denote the same exactly when the order of meanings does not tell them
apart. -/
theorem meaning_cmp_eq_iff {left right : Value} (same : left.kind = right.kind) :
    left.meaning.cmp right.meaning = .eq ↔ left.meaning = right.meaning := by
  cases left <;> cases right <;> simp only [kind, reduceCtorEq] at same <;>
    simp [meaning, Meaning.cmp]

/-- Values are equal exactly when they are of one kind and denote the same. -/
theorem beq_iff_meaning_eq {left right : Value} :
    (left == right) = true ↔ left.kind = right.kind ∧ left.meaning = right.meaning := by
  rw [beq_iff_cmp_eq, cmp_eq_meaning, Ordering.then_eq_eq, Std.LawfulEqCmp.compare_eq_iff_eq,
    Kind.rank_inj]
  exact and_congr_right meaning_cmp_eq_iff

/-- Equality, order and hashing are those of kinds and meanings. -/
structure FollowsMeaning : Prop where
  /-- Equal values are those that denote the same thing of one kind. -/
  beq_iff (left right : Value) :
    (left == right) = true ↔ left.kind = right.kind ∧ left.meaning = right.meaning
  /-- Equality is an equivalence. -/
  equivalence : Equivalence fun left right : Value => (left == right) = true
  /-- The order is that of the kinds and then that of the meanings. -/
  cmp_eq (left right : Value) :
    left.cmp right =
      (compare left.kind.rank right.kind.rank).then (left.meaning.cmp right.meaning)
  /-- The order is transitive. -/
  isLE_trans (left middle right : Value) :
    (left.cmp middle).isLE → (middle.cmp right).isLE → (left.cmp right).isLE
  /-- The order is antisymmetric. -/
  antisymm (left right : Value) :
    (left.cmp right).isLE → (right.cmp left).isLE → (left == right) = true
  /-- Comparing the other way round reverses the outcome. -/
  eq_swap (left right : Value) : right.cmp left = (left.cmp right).swap
  /-- The order does not tell equal values apart, and no others. -/
  cmp_eq_eq_iff (left right : Value) : left.cmp right = .eq ↔ (left == right) = true
  /-- Equal values feed a hasher alike. -/
  feed_eq (left right : Value) : (left == right) = true → feed left = feed right

/-- Values are equal, ordered and hashed by what they denote. -/
theorem followsMeaning : FollowsMeaning where
  beq_iff _ _ := beq_iff_meaning_eq
  equivalence := ⟨fun _ => BEq.rfl, BEq.symm, BEq.trans⟩
  cmp_eq := cmp_eq_meaning
  isLE_trans _ _ _ := Std.TransCmp.isLE_trans
  antisymm _ _ upward downward :=
    beq_iff_cmp_eq.2 (Std.OrientedCmp.isLE_antisymm upward downward)
  eq_swap _ _ := Std.OrientedCmp.eq_swap
  cmp_eq_eq_iff _ _ := beq_iff_cmp_eq.symm
  feed_eq _ _ := HashFeed.feed_congr

-- The first integer that no float equals lies above the float nearest to it.
example : (int (2 ^ 53 + 1)).cmp (float ⟨0x4340000000000000⟩) = .gt := by decide +kernel

end Value

end Datalog
