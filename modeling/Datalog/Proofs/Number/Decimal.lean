import Datalog.Number.Decimal
import Datalog.Proofs.Number.Rounding

/-!
# Decimals as numbers

A decimal `digits * 10 ^ exponent` is rounded to the number nearest to it, of either sign
(`isNearestDecimal_ofDecimal`). The exponents at which reading answers without a division are
those of decimals that are infinite or zero anyway.
-/

namespace Datalog.Binary64

/-- A decimal of one sign is rounded to a number. -/
structure IsNearestDecimal (negative : Bool) (digits : Nat) (exponent : Int) (number : Binary64) :
    Prop where
  sign : number.isNegative = negative
  magnitude : IsNearest (digits * 10 ^ exponent.toNat * 2 ^ 1074) (10 ^ (-exponent).toNat)
    number.magnitude

section OfMagnitude

variable {negative : Bool} {magnitude : Nat} (inRange : magnitude ≤ infinityMagnitude)

include inRange

/-- The word of a sign and a magnitude. -/
theorem toNat_bits_ofMagnitude : (ofMagnitude negative magnitude).bits.toNat =
    if negative then 2 ^ 63 + magnitude else magnitude := by
  have bound : infinityMagnitude < 2 ^ 63 := by decide
  rw [ofMagnitude, UInt64.toNat_ofNat', Nat.mod_eq_of_lt]
  split <;> omega

/-- The sign of a number given by sign and magnitude. -/
theorem isNegative_ofMagnitude : (ofMagnitude negative magnitude).isNegative = negative := by
  have bound : infinityMagnitude < 2 ^ 63 := by decide
  rw [isNegative, toNat_bits_ofMagnitude inRange]
  cases negative
  · exact decide_eq_false (by simp only [Bool.false_eq_true, if_false]; omega)
  · exact decide_eq_true (by simp only [if_true]; omega)

/-- The magnitude of a number given by sign and magnitude. -/
theorem magnitude_ofMagnitude : (ofMagnitude negative magnitude).magnitude = magnitude := by
  have bound : infinityMagnitude < 2 ^ 63 := by decide
  rw [Binary64.magnitude, toNat_bits_ofMagnitude inRange]
  split <;> omega

end OfMagnitude

/-- Less than half a unit is rounded to zero. -/
theorem isNearest_zero {numerator denominator : Nat} (isSmall : 2 * numerator < denominator) :
    IsNearest numerator denominator 0 := by
  refine isNearest_of_middles (by omega) (Nat.zero_le _) (fun lower less => absurd less (by omega))
    (fun higher _ greater => ?_)
  have atLeastOne : 1 * denominator ≤ unitsOfMagnitude higher * denominator :=
    Nat.mul_le_mul_right _ (Nat.lt_of_le_of_lt (Nat.zero_le _) (unitsOfMagnitude_lt greater))
  rw [Nat.add_mul]
  exact ⟨by omega, fun _ => rfl⟩

/-- A decimal with a large exponent is beyond the finite numbers. -/
theorem infinity_le_decimal {digits exponent : Nat} (nonzero : digits ≠ 0)
    (isLarge : 310 ≤ exponent) :
    unitsOfMagnitude infinityMagnitude ≤ digits * 10 ^ exponent * 2 ^ 1074 := by
  have power : unitsOfMagnitude infinityMagnitude ≤ 10 ^ 310 * 2 ^ 1074 := by decide +kernel
  generalize 2 ^ 1074 = unit at power ⊢
  have larger : 10 ^ 310 ≤ 10 ^ exponent :=
    @Nat.pow_le_pow_right 10 (by decide) 310 exponent isLarge
  generalize 10 ^ 310 = bound at power larger
  refine Nat.le_trans power (Nat.mul_le_mul_right unit (Nat.le_trans larger ?_))
  exact Nat.le_mul_of_pos_left _ (Nat.pos_of_ne_zero nonzero)

/-- A decimal with a small exponent is less than half a unit. -/
theorem decimal_lt_half {digits exponent : Nat} (isSmall : 400 + digits.log2 < exponent) :
    2 * (digits * 2 ^ 1074) < 10 ^ exponent := by
  have power : 2 * (2 * 2 ^ 1074) ≤ 10 ^ 400 := by decide +kernel
  have positive : 0 < 2 ^ 1074 := Nat.two_pow_pos 1074
  generalize 2 ^ 1074 = unit at power positive ⊢
  have isPower : 10 ^ (400 + digits.log2) = 10 ^ 400 * 10 ^ digits.log2 :=
    Nat.pow_add 10 400 digits.log2
  generalize 10 ^ 400 = bound at power isPower
  have lessDigits : digits < 2 * 2 ^ digits.log2 := by
    rw [← Nat.pow_succ']
    exact Nat.lt_log2_self
  calc 2 * (digits * unit) < 2 * (2 * 2 ^ digits.log2 * unit) := by
        have less := Nat.mul_lt_mul_of_pos_right lessDigits positive
        omega
    _ = 2 * (2 * unit) * 2 ^ digits.log2 := by ac_rfl
    _ ≤ bound * 10 ^ digits.log2 := Nat.mul_le_mul power (Nat.pow_le_pow_left (by decide) _)
    _ = 10 ^ (400 + digits.log2) := isPower.symm
    _ ≤ 10 ^ exponent := Nat.pow_le_pow_right (by decide) isSmall.le

/-- A decimal is read as the number that it is rounded to. -/
theorem isNearestDecimal_ofDecimal (negative : Bool) (digits : Nat) (exponent : Int) :
    IsNearestDecimal negative digits exponent (ofDecimal negative digits exponent) := by
  have isRounded : ∃ magnitude,
      ofDecimal negative digits exponent = ofMagnitude negative magnitude ∧
      IsNearest (digits * 10 ^ exponent.toNat * 2 ^ 1074) (10 ^ (-exponent).toNat) magnitude := by
    refine ⟨_, rfl, ?_⟩
    split
    next isZero =>
      simp only [isZero, Nat.zero_mul]
      exact isNearest_zero (Nat.pow_pos (by decide))
    next nonzero =>
      split
      next isLarge =>
        obtain ⟨power, rfl⟩ := Int.eq_ofNat_of_zero_le (show 0 ≤ exponent by omega)
        rw [Int.toNat_natCast, Int.toNat_neg_natCast, Nat.pow_zero]
        refine isNearest_infinity Nat.one_pos ?_
        rw [Nat.mul_one]
        exact infinity_le_decimal nonzero (by omega)
      next =>
        split
        next isSmall =>
          rw [Int.toNat_eq_zero.2 (show exponent ≤ 0 by omega), Nat.pow_zero, Nat.mul_one]
          exact isNearest_zero (decimal_lt_half (by omega))
        next =>
          split
          next power =>
            rw [Int.ofNat_eq_natCast, Int.toNat_natCast, Int.toNat_neg_natCast, Nat.pow_zero]
            exact isNearest_nearest Nat.one_pos
          next power =>
            rw [Int.toNat_negSucc, Int.neg_negSucc, Int.toNat_natCast, Nat.pow_zero, Nat.mul_one]
            exact isNearest_nearest (Nat.pow_pos (by decide))
  obtain ⟨magnitude, same, isNearest⟩ := isRounded
  rw [same]
  refine ⟨isNegative_ofMagnitude isNearest.inRange, ?_⟩
  rwa [magnitude_ofMagnitude isNearest.inRange]

/-- There is only one number that a decimal is rounded to. -/
theorem IsNearestDecimal.eq_ofDecimal {negative : Bool} {digits : Nat} {exponent : Int}
    {number : Binary64} (isNearest : IsNearestDecimal negative digits exponent number) :
    number = ofDecimal negative digits exponent := by
  have isRead := isNearestDecimal_ofDecimal negative digits exponent
  exact ext_sign_magnitude (isNearest.sign.trans isRead.sign.symm)
    (isNearest.magnitude.unique (Nat.pow_pos (by decide)) isRead.magnitude)

end Datalog.Binary64
