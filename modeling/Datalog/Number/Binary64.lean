/-!
# Binary floating-point numbers

A `Binary64` is a 64-bit word read as a sign over a 63-bit magnitude. Magnitudes below
`infinityMagnitude` are the finite numbers in increasing order, that magnitude itself is
infinity, and every larger one is a NaN.

Every finite number is a whole multiple of `2 ^ -1074`. `units` decodes it to that multiple,
so equality and order are questions about integers and nothing is ever rounded; `nearest`
encodes a quotient of two naturals, rounded to the closest magnitude with ties to the even
one.
-/

-- Powers are those of `NatPow`, also where other readings of `^` are in scope.
attribute [instance (10001), default_instance 10001] instPowNat

namespace Datalog

/-- A double-precision number, given by its interchange word. -/
structure Binary64 where
  bits : UInt64
  deriving DecidableEq, Inhabited

namespace Binary64

/-- The magnitude of the two infinities: all exponent bits set, no fraction bit set. -/
def infinityMagnitude : Nat :=
  2047 * 2 ^ 52

/-- The word without its sign bit. -/
def magnitude (number : Binary64) : Nat :=
  number.bits.toNat % 2 ^ 63

/-- Whether the sign bit is set; `-0.0` is negative in this sense. -/
def isNegative (number : Binary64) : Bool :=
  2 ^ 63 ≤ number.bits.toNat

/-- Whether the number is a NaN of any payload. -/
def isNaN (number : Binary64) : Bool :=
  infinityMagnitude < number.magnitude

/-- Whether the number is one of the two infinities. -/
def isInfinite (number : Binary64) : Bool :=
  number.magnitude == infinityMagnitude

/-- Whether the number is neither an infinity nor a NaN. -/
def isFinite (number : Binary64) : Bool :=
  number.magnitude < infinityMagnitude

/-- The number with the given sign and magnitude. -/
def ofMagnitude (negative : Bool) (magnitude : Nat) : Binary64 :=
  ⟨UInt64.ofNat (if negative then 2 ^ 63 + magnitude else magnitude)⟩

/-- The NaN that stands for all of them. -/
def nan : Binary64 :=
  ofMagnitude false (infinityMagnitude + 2 ^ 51)

/-- How many units of `2 ^ -1074` a finite magnitude is. The lowest binade has an implicit
leading zero and the unit as its step; each later binade has an implicit leading one and
twice the step of the binade before, except the first of them. -/
def unitsOfMagnitude (magnitude : Nat) : Nat :=
  if magnitude < 2 ^ 52 then magnitude
  else (2 ^ 52 + magnitude % 2 ^ 52) * 2 ^ (magnitude / 2 ^ 52 - 1)

/-- A finite number as a multiple of `2 ^ -1074`; both zeros are `0`. -/
def units (number : Binary64) : Int :=
  if number.isNegative then -(unitsOfMagnitude number.magnitude : Int)
  else unitsOfMagnitude number.magnitude

/-- The quotient of two naturals rounded to the nearest natural, a half to the even one. -/
def roundHalfEven (numerator denominator : Nat) : Nat :=
  let quotient := numerator / denominator
  match compare (2 * (numerator % denominator)) denominator with
  | .lt => quotient
  | .eq => quotient + quotient % 2
  | .gt => quotient + 1

/-- The magnitude nearest to `numerator / denominator` units, a half to the even
significand. The step doubles with each binade above the lowest two, and counting steps from
the start of the binade makes a significand that rounds up to the next power of two carry
into the exponent; beyond the largest finite number the result is infinity. -/
def nearest (numerator denominator : Nat) : Nat :=
  let doublings := (numerator / denominator).log2 - 52
  let significand := roundHalfEven numerator (denominator * 2 ^ doublings)
  min (doublings * 2 ^ 52 + significand) infinityMagnitude

/-- The 64-bit integer equal to a float, if there is one. -/
def toInt64? (number : Binary64) : Option Int64 :=
  if number.isFinite && number.units % 2 ^ 1074 == 0 then
    let whole := number.units / 2 ^ 1074
    if -(2 ^ 63) ≤ whole ∧ whole < 2 ^ 63 then some (Int64.ofInt whole) else none
  else none

/-- The next magnitude is larger. -/
theorem unitsOfMagnitude_lt_succ (magnitude : Nat) :
    unitsOfMagnitude magnitude < unitsOfMagnitude (magnitude + 1) := by
  unfold unitsOfMagnitude
  by_cases isLow : magnitude + 1 < 2 ^ 52
  · rw [if_pos (Nat.lt_of_succ_lt isLow), if_pos isLow]
    exact Nat.lt_succ_self magnitude
  · by_cases isLast : magnitude < 2 ^ 52
    · have exact : magnitude = 2 ^ 52 - 1 := by omega
      subst exact
      decide
    · rw [if_neg isLast, if_neg isLow]
      have positive : 0 < 2 ^ (magnitude / 2 ^ 52 - 1) := Nat.two_pow_pos _
      by_cases carries : magnitude % 2 ^ 52 = 2 ^ 52 - 1
      · have quotient : (magnitude + 1) / 2 ^ 52 - 1 = magnitude / 2 ^ 52 - 1 + 1 := by omega
        have remainder : (magnitude + 1) % 2 ^ 52 = 0 := by omega
        have doubled : 2 ^ (magnitude / 2 ^ 52 - 1 + 1) = 2 ^ (magnitude / 2 ^ 52 - 1) * 2 :=
          Nat.pow_succ ..
        rw [quotient, remainder, carries, doubled]
        omega
      · have quotient : (magnitude + 1) / 2 ^ 52 = magnitude / 2 ^ 52 := by omega
        have remainder : (magnitude + 1) % 2 ^ 52 = magnitude % 2 ^ 52 + 1 := by omega
        rw [quotient, remainder]
        exact Nat.mul_lt_mul_of_pos_right (by omega) positive

/-- Magnitudes increase with the numbers that they encode. -/
theorem unitsOfMagnitude_lt {lower higher : Nat} (less : lower < higher) :
    unitsOfMagnitude lower < unitsOfMagnitude higher := by
  induction less with
  | refl => exact unitsOfMagnitude_lt_succ lower
  | step _ inductionHypothesis =>
      exact Nat.lt_trans inductionHypothesis (unitsOfMagnitude_lt_succ _)

/-- Different magnitudes encode different numbers. -/
theorem unitsOfMagnitude_inj {left right : Nat} :
    unitsOfMagnitude left = unitsOfMagnitude right ↔ left = right := by
  refine ⟨fun equal => ?_, congrArg unitsOfMagnitude⟩
  rcases Nat.lt_trichotomy left right with less | same | greater
  · exact absurd equal (Nat.ne_of_lt (unitsOfMagnitude_lt less))
  · exact same
  · exact absurd equal.symm (Nat.ne_of_lt (unitsOfMagnitude_lt greater))

/-- A number is determined by its sign and its magnitude. -/
theorem ext_sign_magnitude {left right : Binary64} (sign : left.isNegative = right.isNegative)
    (magnitude : left.magnitude = right.magnitude) : left = right := by
  obtain ⟨leftBits⟩ := left
  obtain ⟨rightBits⟩ := right
  simp only [isNegative, Binary64.magnitude, decide_eq_decide] at sign magnitude
  have leftBound := leftBits.toNat_lt
  have rightBound := rightBits.toNat_lt
  exact congrArg mk (UInt64.toNat_inj.1 (by omega))

/-- Numbers of the same units are the same, unless they are the two zeros. -/
theorem eq_or_zero_of_units_eq {left right : Binary64} (equal : left.units = right.units) :
    left = right ∨ left.units = 0 := by
  have zero {magnitude : Nat} (isZero : unitsOfMagnitude magnitude = 0) : magnitude = 0 :=
    unitsOfMagnitude_inj.1 isZero
  unfold units at equal ⊢
  cases leftSign : left.isNegative <;> cases rightSign : right.isNegative <;>
    simp only [leftSign, rightSign, Bool.false_eq_true, if_true, if_false] at equal ⊢
  · exact .inl (ext_sign_magnitude (by simp [leftSign, rightSign])
      (unitsOfMagnitude_inj.1 (by omega)))
  · exact .inr (by omega)
  · exact .inr (by omega)
  · exact .inl (ext_sign_magnitude (by simp [leftSign, rightSign])
      (unitsOfMagnitude_inj.1 (by omega)))

/-- A finite number is neither an infinity nor a NaN. -/
theorem isFinite_iff {number : Binary64} :
    number.isFinite = true ↔ number.isNaN = false ∧ number.isInfinite = false := by
  simp only [isFinite, isNaN, isInfinite, decide_eq_true_eq, decide_eq_false_iff_not,
    beq_eq_false_iff_ne]
  omega

end Binary64

end Datalog
