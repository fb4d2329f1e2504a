import Mathlib.Data.Nat.Dist
import Mathlib.Tactic.WLOG
import Datalog.Number.Binary64

/-!
# Rounding to the nearest number

`Binary64.IsNearest` says which magnitude a quotient has to be rounded to, by its distance
from all of them: the nearest one, and of two equally near the even one. There is only one
(`IsNearest.unique`), `nearest` finds it (`isNearest_nearest`), and every magnitude is its own
nearest one (`isNearest_unitsOfMagnitude`).
-/

namespace Datalog.Binary64

/-- How far a magnitude is from a quotient, in units over the quotient's denominator. The
magnitude of infinity counts as the power of two behind the largest finite number. -/
def distance (numerator denominator magnitude : Nat) : Nat :=
  Nat.dist numerator (unitsOfMagnitude magnitude * denominator)

/-- A quotient is rounded to a magnitude: no other one is nearer, and where another is equally
near, this is the even one. -/
structure IsNearest (numerator denominator magnitude : Nat) : Prop where
  inRange : magnitude ≤ infinityMagnitude
  nearest : ∀ other ≤ infinityMagnitude,
    distance numerator denominator magnitude ≤ distance numerator denominator other
  even : ∀ other ≤ infinityMagnitude, other ≠ magnitude →
    distance numerator denominator magnitude = distance numerator denominator other →
    magnitude % 2 = 0

variable {numerator denominator magnitude : Nat}

/-- Larger magnitudes are more parts of a unit. -/
theorem unitsOfMagnitude_mul_lt (positive : 0 < denominator) {lower higher : Nat}
    (less : lower < higher) :
    unitsOfMagnitude lower * denominator < unitsOfMagnitude higher * denominator :=
  Nat.mul_lt_mul_of_pos_right (unitsOfMagnitude_lt less) positive

/-- Magnitudes that are not smaller are not fewer units. -/
theorem unitsOfMagnitude_le {lower higher : Nat} (notGreater : lower ≤ higher) :
    unitsOfMagnitude lower ≤ unitsOfMagnitude higher := by
  rcases Nat.lt_or_eq_of_le notGreater with less | same
  · exact (unitsOfMagnitude_lt less).le
  · exact (congrArg unitsOfMagnitude same).le

/-- A quotient is rounded to at most one magnitude: of two equally near ones, both even, a
third one between them would be nearer. -/
theorem IsNearest.unique (positive : 0 < denominator) {other : Nat}
    (isNearest : IsNearest numerator denominator magnitude)
    (isOther : IsNearest numerator denominator other) : magnitude = other := by
  by_contra different
  wlog less : magnitude < other generalizing magnitude other
  · exact this isOther isNearest (Ne.symm different) (by omega)
  have equallyNear : distance numerator denominator magnitude =
      distance numerator denominator other :=
    Nat.le_antisymm (isNearest.nearest other isOther.inRange)
      (isOther.nearest magnitude isNearest.inRange)
  have even := isNearest.even other isOther.inRange (Ne.symm different) equallyNear
  have otherEven := isOther.even magnitude isNearest.inRange different equallyNear.symm
  have between : magnitude + 1 < other := by omega
  have inRange := isOther.inRange
  have notNearer := isNearest.nearest (magnitude + 1) (by omega)
  have above := unitsOfMagnitude_mul_lt positive (Nat.lt_add_one magnitude)
  have below := unitsOfMagnitude_mul_lt positive between
  unfold distance Nat.dist at equallyNear notNearer
  omega

/-- A magnitude is the nearest one if the quotient is on its side of the middle between it and
each other one. -/
theorem isNearest_of_middles (positive : 0 < denominator)
    (inRange : magnitude ≤ infinityMagnitude)
    (below : ∀ lower < magnitude,
      (unitsOfMagnitude lower + unitsOfMagnitude magnitude) * denominator ≤ 2 * numerator ∧
      ((unitsOfMagnitude lower + unitsOfMagnitude magnitude) * denominator = 2 * numerator →
        magnitude % 2 = 0))
    (above : ∀ higher ≤ infinityMagnitude, magnitude < higher →
      2 * numerator ≤ (unitsOfMagnitude magnitude + unitsOfMagnitude higher) * denominator ∧
      (2 * numerator = (unitsOfMagnitude magnitude + unitsOfMagnitude higher) * denominator →
        magnitude % 2 = 0)) :
    IsNearest numerator denominator magnitude := by
  have compared : ∀ other ≤ infinityMagnitude, other ≠ magnitude →
      distance numerator denominator magnitude ≤ distance numerator denominator other ∧
      (distance numerator denominator magnitude = distance numerator denominator other →
        magnitude % 2 = 0) := by
    intro other otherInRange different
    unfold distance Nat.dist
    rcases Nat.lt_or_gt_of_ne different with less | greater
    · obtain ⟨isAbove, tie⟩ := below other less
      have apart := unitsOfMagnitude_mul_lt positive less
      rw [Nat.add_mul] at isAbove tie
      exact ⟨by omega, fun equal => tie (by omega)⟩
    · obtain ⟨isBelow, tie⟩ := above other otherInRange greater
      have apart := unitsOfMagnitude_mul_lt positive greater
      rw [Nat.add_mul] at isBelow tie
      exact ⟨by omega, fun equal => tie (by omega)⟩
  refine ⟨inRange, fun other otherInRange => ?_, fun other otherInRange different =>
    (compared other otherInRange different).2⟩
  by_cases same : other = magnitude
  · rw [same]
  · exact (compared other otherInRange same).1

/-- Every magnitude is the nearest one to its own units. -/
theorem isNearest_unitsOfMagnitude (inRange : magnitude ≤ infinityMagnitude) :
    IsNearest (unitsOfMagnitude magnitude) 1 magnitude := by
  refine isNearest_of_middles Nat.one_pos inRange (fun lower less => ?_)
    (fun higher _ greater => ?_)
  · have apart := unitsOfMagnitude_lt less
    omega
  · have apart := unitsOfMagnitude_lt greater
    omega

/-- Extending a quotient does not change what it is rounded to. -/
theorem isNearest_mul_iff {factor : Nat} (positive : 0 < factor) :
    IsNearest (numerator * factor) (denominator * factor) magnitude ↔
      IsNearest numerator denominator magnitude := by
  have scaled (other : Nat) : distance (numerator * factor) (denominator * factor) other =
      distance numerator denominator other * factor := by
    rw [distance, ← Nat.mul_assoc, Nat.dist_mul_right, distance]
  constructor
  · rintro ⟨inRange, nearest, even⟩
    simp only [scaled, Nat.mul_le_mul_right_iff positive, Nat.mul_left_inj positive.ne']
      at nearest even
    exact ⟨inRange, nearest, even⟩
  · rintro ⟨inRange, nearest, even⟩
    refine ⟨inRange, ?_, ?_⟩
    · simpa only [scaled, Nat.mul_le_mul_right_iff positive] using nearest
    · simpa only [scaled, Nat.mul_left_inj positive.ne'] using even

/-- A quotient is rounded to a whole number: it is at most a half away, and exactly a half only
from an even one. -/
structure IsRounded (numerator denominator rounded : Nat) : Prop where
  below : 2 * (rounded * denominator) ≤ 2 * numerator + denominator
  above : 2 * numerator ≤ 2 * (rounded * denominator) + denominator
  evenBelow : 2 * (rounded * denominator) = 2 * numerator + denominator → rounded % 2 = 0
  evenAbove : 2 * numerator = 2 * (rounded * denominator) + denominator → rounded % 2 = 0

/-- Rounding to whole numbers does so. -/
theorem isRounded_roundHalfEven (positive : 0 < denominator) :
    IsRounded numerator denominator (roundHalfEven numerator denominator) := by
  have division := Nat.div_add_mod numerator denominator
  have remainder := Nat.mod_lt numerator positive
  rw [Nat.mul_comm] at division
  simp only [roundHalfEven]
  split
  next less =>
    have less := Nat.compare_eq_lt.1 less
    constructor <;> omega
  next half =>
    have half := Nat.compare_eq_eq.1 half
    rcases Nat.mod_two_eq_zero_or_one (numerator / denominator) with even | odd
    · rw [even, Nat.add_zero]
      constructor <;> omega
    · rw [odd]
      constructor <;> simp only [Nat.add_mul] <;> omega
  next greater =>
    have greater := Nat.compare_eq_gt.1 greater
    constructor <;> simp only [Nat.add_mul] <;> omega

/-- Counting steps from the start of a binade to the end of the next one: each is the same
power of two. -/
theorem unitsOfMagnitude_binade {doublings significand : Nat} (bounded : significand ≤ 2 ^ 53)
    (normal : doublings = 0 ∨ 2 ^ 52 ≤ significand) :
    unitsOfMagnitude (doublings * 2 ^ 52 + significand) = significand * 2 ^ doublings := by
  unfold unitsOfMagnitude
  by_cases isLow : doublings * 2 ^ 52 + significand < 2 ^ 52
  · have isFirst : doublings = 0 := by omega
    rw [if_pos isLow, isFirst, Nat.zero_mul, Nat.zero_add, Nat.pow_zero, Nat.mul_one]
  · rw [if_neg isLow]
    by_cases isLast : significand = 2 ^ 53
    · have quotient : (doublings * 2 ^ 52 + significand) / 2 ^ 52 - 1 = doublings + 1 := by omega
      have remainder : (doublings * 2 ^ 52 + significand) % 2 ^ 52 = 0 := by omega
      rw [quotient, remainder, isLast, Nat.pow_succ]
      omega
    · have quotient : (doublings * 2 ^ 52 + significand) / 2 ^ 52 - 1 = doublings := by omega
      have remainder : 2 ^ 52 + (doublings * 2 ^ 52 + significand) % 2 ^ 52 = significand := by
        omega
      rw [quotient, remainder]

/-- The significand of a quotient in a binade, rounded, lies in that binade or at its end. -/
theorem IsRounded.le_of_le {rounded size : Nat} (positive : 0 < denominator)
    (isRounded : IsRounded numerator denominator rounded) (below : size * denominator ≤ numerator) :
    size ≤ rounded := by
  by_contra less
  have steps := Nat.mul_le_mul_right denominator (Nat.lt_of_not_le less)
  rw [Nat.succ_mul] at steps
  have above := isRounded.above
  omega

/-- Rounding does not pass a whole number. -/
theorem IsRounded.le_of_lt {rounded size : Nat} (positive : 0 < denominator)
    (isRounded : IsRounded numerator denominator rounded) (above : numerator < size * denominator) :
    rounded ≤ size := by
  by_contra greater
  have steps := Nat.mul_le_mul_right denominator (Nat.lt_of_not_le greater)
  rw [Nat.succ_mul] at steps
  have below := isRounded.below
  omega

section Binade

variable {doublings significand : Nat}

/-- A quotient lies in a binade, or in one of the lowest two. -/
structure InBinade (numerator denominator doublings : Nat) : Prop where
  start : doublings = 0 ∨ 2 ^ 52 * (denominator * 2 ^ doublings) ≤ numerator
  finish : numerator < 2 ^ 53 * (denominator * 2 ^ doublings)

/-- The whole part of a quotient tells its binade. -/
theorem inBinade_log2 (positive : 0 < denominator) :
    InBinade numerator denominator ((numerator / denominator).log2 - 52) := by
  generalize isQuotient : numerator / denominator = quotient
  have atLeast : quotient * denominator ≤ numerator := isQuotient ▸ Nat.div_mul_le_self ..
  have lessThan : numerator < (quotient + 1) * denominator :=
    
    (Nat.div_lt_iff_lt_mul positive).1 (isQuotient ▸ Nat.lt_succ_self quotient)
  constructor
  · rcases Nat.eq_zero_or_pos (quotient.log2 - 52) with isFirst | isLater
    · exact .inl isFirst
    · right
      have nonzero : quotient ≠ 0 := by
        rintro rfl
        simp at isLater
      have power : 2 ^ 52 * 2 ^ (quotient.log2 - 52) ≤ quotient := by
        rw [← Nat.pow_add, Nat.add_sub_cancel' (by omega)]
        exact Nat.log2_self_le nonzero
      calc 2 ^ 52 * (denominator * 2 ^ (quotient.log2 - 52))
          = 2 ^ 52 * 2 ^ (quotient.log2 - 52) * denominator := by
            rw [Nat.mul_comm denominator, Nat.mul_assoc]
        _ ≤ quotient * denominator := Nat.mul_le_mul_right _ power
        _ ≤ numerator := atLeast
  · have power : quotient + 1 ≤ 2 ^ 53 * 2 ^ (quotient.log2 - 52) := by
      rw [← Nat.pow_add]
      exact Nat.lt_of_lt_of_le Nat.lt_log2_self (Nat.pow_le_pow_right (by omega) (by omega))
    calc numerator < (quotient + 1) * denominator := lessThan
      _ ≤ 2 ^ 53 * 2 ^ (quotient.log2 - 52) * denominator := Nat.mul_le_mul_right _ power
      _ = 2 ^ 53 * (denominator * 2 ^ (quotient.log2 - 52)) := by
        rw [Nat.mul_comm denominator, Nat.mul_assoc]

variable (positive : 0 < denominator) (inBinade : InBinade numerator denominator doublings)
  (isRounded : IsRounded numerator (denominator * 2 ^ doublings) significand)

include positive inBinade isRounded

/-- A rounded significand is that of a number of the binade or of the first one behind it. -/
theorem InBinade.significand_bounds :
    significand ≤ 2 ^ 53 ∧ (doublings = 0 ∨ 2 ^ 52 ≤ significand) := by
  have stepPositive : 0 < denominator * 2 ^ doublings := Nat.mul_pos positive (Nat.two_pow_pos _)
  exact ⟨isRounded.le_of_lt stepPositive inBinade.finish,
    inBinade.start.imp_right (isRounded.le_of_le stepPositive)⟩

/-- The units of a rounded significand. -/
theorem InBinade.units_mul :
    unitsOfMagnitude (doublings * 2 ^ 52 + significand) * denominator =
      significand * (denominator * 2 ^ doublings) := by
  obtain ⟨bounded, normal⟩ := inBinade.significand_bounds positive isRounded
  rw [unitsOfMagnitude_binade bounded normal, Nat.mul_assoc, Nat.mul_comm denominator]

/-- The quotient is not below the middle between a lower magnitude and the one of the rounded
significand. -/
theorem InBinade.below {lower : Nat} (less : lower < doublings * 2 ^ 52 + significand) :
    (unitsOfMagnitude lower + unitsOfMagnitude (doublings * 2 ^ 52 + significand)) * denominator ≤
        2 * numerator ∧
      ((unitsOfMagnitude lower + unitsOfMagnitude (doublings * 2 ^ 52 + significand)) *
        denominator = 2 * numerator → (doublings * 2 ^ 52 + significand) % 2 = 0) := by
  obtain ⟨bounded, normal⟩ := inBinade.significand_bounds positive isRounded
  have apart := unitsOfMagnitude_mul_lt positive less
  rw [Nat.add_mul]
  rw [inBinade.units_mul positive isRounded] at apart ⊢
  -- The first number of a binade has a smaller step below it, but it is not above the quotient.
  by_cases isFirst : doublings ≠ 0 ∧ significand = 2 ^ 52
  · have start := inBinade.start.resolve_left isFirst.1
    rw [isFirst.2] at apart ⊢
    omega
  · have isLower : unitsOfMagnitude lower * denominator ≤
        (significand - 1) * (denominator * 2 ^ doublings) := by
      have previous : unitsOfMagnitude lower ≤
          unitsOfMagnitude (doublings * 2 ^ 52 + (significand - 1)) :=
        unitsOfMagnitude_le (by omega)
      rw [unitsOfMagnitude_binade (by omega) (by omega)] at previous
      calc unitsOfMagnitude lower * denominator
          ≤ (significand - 1) * 2 ^ doublings * denominator := Nat.mul_le_mul_right _ previous
        _ = (significand - 1) * (denominator * 2 ^ doublings) := by
          rw [Nat.mul_assoc, Nat.mul_comm denominator]
    have step : (significand - 1) * (denominator * 2 ^ doublings) + denominator * 2 ^ doublings =
        significand * (denominator * 2 ^ doublings) := by
      rw [← Nat.succ_mul]
      congr 1
      omega
    have below := isRounded.below
    have evenBelow := isRounded.evenBelow
    constructor
    · omega
    · intro equal
      have even := evenBelow (by omega)
      omega

/-- The quotient is not above the middle between a higher magnitude and the one of the rounded
significand. -/
theorem InBinade.above {higher : Nat} (greater : doublings * 2 ^ 52 + significand < higher) :
    2 * numerator ≤ (unitsOfMagnitude (doublings * 2 ^ 52 + significand) +
        unitsOfMagnitude higher) * denominator ∧
      (2 * numerator = (unitsOfMagnitude (doublings * 2 ^ 52 + significand) +
        unitsOfMagnitude higher) * denominator → (doublings * 2 ^ 52 + significand) % 2 = 0) := by
  obtain ⟨bounded, normal⟩ := inBinade.significand_bounds positive isRounded
  have apart := unitsOfMagnitude_mul_lt positive greater
  rw [Nat.add_mul]
  rw [inBinade.units_mul positive isRounded] at apart ⊢
  by_cases isLast : significand = 2 ^ 53
  · have finish := inBinade.finish
    rw [isLast] at apart ⊢
    omega
  · have isHigher : (significand + 1) * (denominator * 2 ^ doublings) ≤
        unitsOfMagnitude higher * denominator := by
      have next : unitsOfMagnitude (doublings * 2 ^ 52 + (significand + 1)) ≤
          unitsOfMagnitude higher :=
        unitsOfMagnitude_le (by omega)
      rw [unitsOfMagnitude_binade (by omega) (by omega)] at next
      calc (significand + 1) * (denominator * 2 ^ doublings)
          = (significand + 1) * 2 ^ doublings * denominator := by
            rw [Nat.mul_assoc, Nat.mul_comm denominator]
        _ ≤ unitsOfMagnitude higher * denominator := Nat.mul_le_mul_right _ next
    rw [Nat.add_mul, Nat.one_mul] at isHigher
    have above := isRounded.above
    have evenAbove := isRounded.evenAbove
    constructor
    · omega
    · intro equal
      have even := evenAbove (by omega)
      omega

end Binade

/-- Beyond the largest finite number the nearest magnitude is infinity. -/
theorem isNearest_infinity (positive : 0 < denominator)
    (isBeyond : unitsOfMagnitude infinityMagnitude * denominator ≤ numerator) :
    IsNearest numerator denominator infinityMagnitude := by
  refine isNearest_of_middles positive (Nat.le_refl _) (fun lower less => ?_)
    (fun higher inRange greater => absurd inRange (Nat.not_le_of_gt greater))
  have apart := unitsOfMagnitude_mul_lt positive less
  rw [Nat.add_mul]
  omega

/-- The magnitude that is found is the nearest one. -/
theorem isNearest_nearest (positive : 0 < denominator) :
    IsNearest numerator denominator (nearest numerator denominator) := by
  have inBinade : InBinade numerator denominator _ := inBinade_log2 positive
  have isRounded : IsRounded numerator _ _ := isRounded_roundHalfEven
    (Nat.mul_pos positive (Nat.two_pow_pos ((numerator / denominator).log2 - 52)))
  unfold nearest
  dsimp only
  rcases Nat.lt_or_ge infinityMagnitude (_ + _) with isBeyond | inRange
  · rw [Nat.min_eq_right isBeyond.le]
    refine isNearest_infinity positive ?_
    have below := (inBinade.below positive isRounded isBeyond).1
    have apart := unitsOfMagnitude_mul_lt positive isBeyond
    rw [Nat.add_mul] at below
    omega
  · rw [Nat.min_eq_left inRange]
    exact isNearest_of_middles positive inRange
      (fun _ less => inBinade.below positive isRounded less)
      (fun _ _ greater => inBinade.above positive isRounded greater)

/-- The nearest magnitude is found. -/
theorem isNearest_iff (positive : 0 < denominator) :
    IsNearest numerator denominator magnitude ↔ nearest numerator denominator = magnitude :=
  ⟨(isNearest_nearest positive).unique positive, fun same => same ▸ isNearest_nearest positive⟩

end Datalog.Binary64
