import Datalog.Number.Binary64

/-!
# The number line

Integers and floats have exact places on one line, which decides how they compare and which
of them are equal: two floats share a place only if they are the same, both zeros or both
NaNs, and a float shares the place of a 64-bit integer exactly when `toInt64?` finds it.
-/

namespace Datalog

/-- The line of numbers in units of `2 ^ -1074`, closed by two infinities and by one point
above everything for all NaNs. -/
inductive NumberLine where
  | negInfinity
  | finite (units : Int)
  | posInfinity
  | nan
  deriving DecidableEq

namespace NumberLine

/-- The four stretches of the line from left to right. -/
def stretch : NumberLine → Nat
  | negInfinity => 0
  | finite _ => 1
  | posInfinity => 2
  | nan => 3

/-- The place within the finite stretch, and `0` elsewhere. -/
def place : NumberLine → Int
  | finite units => units
  | _ => 0

/-- The order of the line, from left to right. -/
def cmp : NumberLine → NumberLine → Ordering :=
  compareLex (compareOn stretch) (compareOn place)

instance : Std.TransCmp cmp :=
  inferInstanceAs (Std.TransCmp (compareLex (compareOn stretch) (compareOn place)))

instance : Std.LawfulEqCmp cmp where
  eq_of_compare {left right} equal := by
    cases left <;> cases right <;>
      simp_all [cmp, compareLex, compareOn, stretch, place, Ordering.then_eq_eq]

/-- The point of an integer. -/
def ofInt (integer : Int) : NumberLine :=
  finite (integer * 2 ^ 1074)

/-- The point of a float, decoded exactly. -/
def ofFloat (number : Binary64) : NumberLine :=
  if number.isNaN then nan
  else if number.isInfinite then if number.isNegative then negInfinity else posInfinity
  else finite number.units

/-- Floats at the same point of the line are the same, unless they are the two zeros or two
NaNs. -/
theorem eq_of_ofFloat_eq {left right : Binary64} (equal : ofFloat left = ofFloat right)
    (notNaN : left.isNaN = false) (notZero : ofFloat left ≠ finite 0) : left = right := by
  by_cases infinite : left.isInfinite = true
  · have alike : right.isInfinite = true ∧ left.isNegative = right.isNegative := by
      simp only [ofFloat, notNaN, infinite, Bool.false_eq_true, if_true, if_false] at equal
      revert equal
      cases left.isNegative <;> cases right.isNegative <;> cases right.isNaN <;>
        cases right.isInfinite <;> simp
    simp only [Binary64.isInfinite, beq_iff_eq] at infinite alike
    exact Binary64.ext_sign_magnitude alike.2 (infinite.trans alike.1.symm)
  · simp only [ofFloat, notNaN, infinite, Bool.false_eq_true, if_false] at equal notZero
    have units : left.units = right.units := by
      revert equal
      cases right.isNaN <;> cases right.isInfinite <;> cases right.isNegative <;> simp
    rcases Binary64.eq_or_zero_of_units_eq units with same | isZero
    · exact same
    · exact absurd (congrArg finite isZero) notZero

/-- Points that compare equal are the same. -/
theorem cmp_eq_iff {left right : NumberLine} : left.cmp right = .eq ↔ left = right :=
  Std.LawfulEqCmp.compare_eq_iff_eq

/-- Exactly the NaNs lie at the last point of the line. -/
theorem ofFloat_eq_nan_iff {number : Binary64} :
    ofFloat number = nan ↔ number.isNaN = true := by
  unfold ofFloat
  cases number.isNaN <;> cases number.isInfinite <;> cases number.isNegative <;> simp

end NumberLine

/-- A float is an integer when it lies at the same point of the line. -/
theorem Binary64.toInt64?_eq_some_iff {number : Binary64} {integer : Int64} :
    number.toInt64? = some integer ↔
      NumberLine.ofFloat number = NumberLine.ofInt integer.toInt := by
  unfold toInt64? NumberLine.ofFloat NumberLine.ofInt
  have positive : (0 : Int) < 2 ^ 1074 := Int.pow_pos (by decide)
  generalize (2 : Int) ^ 1074 = one at positive ⊢
  by_cases finite : number.isFinite = true
  · obtain ⟨notNaN, notInfinite⟩ := isFinite_iff.1 finite
    simp only [finite, notNaN, notInfinite, Bool.true_and, Bool.false_eq_true, if_false,
      NumberLine.finite.injEq, beq_iff_eq]
    constructor
    · intro found
      split at found
      next whole =>
        split at found
        next inRange =>
          rw [← Option.some.inj found, Int64.toInt_ofInt_of_le inRange.1 inRange.2]
          exact (Int.ediv_mul_cancel (Int.dvd_of_emod_eq_zero whole)).symm
        next => cases found
      next => cases found
    · intro equal
      rw [equal, Int.mul_emod_left, Int.mul_ediv_cancel _ (Int.ne_of_gt positive), if_pos rfl,
        if_pos ⟨integer.le_toInt, integer.toInt_lt⟩, Int64.ofInt_toInt]
  · have notFinite := mt isFinite_iff.2 finite
    rw [if_neg (by simp [finite])]
    constructor
    · intro found
      cases found
    · intro equal
      split at equal
      next => cases equal
      next notNaN =>
        split at equal
        next => split at equal <;> cases equal
        next notInfinite => simp [notNaN, notInfinite] at notFinite

end Datalog
