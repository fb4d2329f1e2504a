import Datalog.Value.Comparison
import Datalog.Value.Equality

/-!
# Comparison up to representation

Constraints compare values through `Value.relate?`, while facts are told apart by `==`.
`relate?_congr` says that the two fit together: equal values compare alike with equal values,
whether they are written as integers or as floats. `accepts_equal_iff` adds that an equality
constraint means `==`, except that no NaN satisfies it.
-/

namespace Datalog.Value

/-- Points compare as the line orders them unless one of them is the place of the NaNs. -/
theorem relate?_points (left right : NumberLine) :
    left.relate? right =
      if left = .nan ∨ right = .nan then none else some (left.cmp right) := by
  cases left <;> cases right <;> simp [NumberLine.relate?]

/-- A value is a NaN. -/
def Unordered (value : Value) : Prop :=
  value.point? = some .nan

instance (value : Value) : Decidable value.Unordered :=
  inferInstanceAs (Decidable (_ = _))

/-- Integers are never NaNs. -/
theorem not_unordered_int (integer : Int64) : ¬ (int integer).Unordered := by
  intro isNaN
  cases Option.some.inj isNaN

/-- Numbers compare in constraints as their points do. -/
theorem relate?_of_points {left right : Value} {leftPoint rightPoint : NumberLine}
    (isLeft : left.point? = some leftPoint) (isRight : right.point? = some rightPoint) :
    left.relate? right = leftPoint.relate? rightPoint := by
  have noNaN (integer : Int) : NumberLine.ofInt integer ≠ .nan := fun isNaN => by cases isNaN
  cases left <;> cases right <;> cases isLeft <;> cases isRight
  case int.int.refl.refl left right =>
    exact congrArg some (NumberLine.cmp_ofInt left.toInt right.toInt).symm
  case int.float.refl.refl left right =>
    rw [relate?, Binary64.compareInt64?_eq, relate?_points]
    simp only [noNaN, NumberLine.ofFloat_eq_nan_iff, false_or]
  case float.int.refl.refl left right =>
    rw [relate?, Binary64.compareInt64?_eq, relate?_points]
    simp only [noNaN, NumberLine.ofFloat_eq_nan_iff, or_false]
    split
    next => rfl
    next => exact congrArg some Std.OrientedCmp.eq_swap.symm
  case float.float.refl.refl => rfl

/-- Values compare in constraints by their total order if they are of one kind and none of
them is a NaN. -/
theorem relate?_eq (left right : Value) :
    left.relate? right =
      if left.kind ≠ right.kind ∨ left.Unordered ∨ right.Unordered then none
      else some (left.cmp right) := by
  by_cases same : left.kind = right.kind
  · cases left <;> cases right <;> simp only [kind, reduceCtorEq] at same
    case int.int | int.float | float.int | float.float =>
      rw [relate?_of_points rfl rfl, relate?_points, cmp_of_points rfl rfl]
      simp [kind, point?, Unordered]
    all_goals simp [relate?, cmp, kind, point?, Unordered]
  · rw [if_pos (.inl same)]
    cases left <;> cases right <;> first | rfl | exact absurd rfl same

/-- Equal values are of one kind. -/
theorem kind_congr {left right : Value} (equal : (left == right) = true) :
    left.kind = right.kind := by
  rw [← kind_canonical left, Canonical.beq_iff.1 equal, kind_canonical]

/-- Equal numbers lie at the same point. -/
theorem point?_congr {left right : Value} (equal : (left == right) = true) :
    left.point? = right.point? := by
  have same := kind_congr equal
  have order := beq_iff_cmp_eq.1 equal
  cases left <;> cases right <;> simp only [kind, reduceCtorEq] at same
  case int.int | int.float | float.int | float.float =>
    rw [cmp_of_points rfl rfl, NumberLine.cmp_eq_iff] at order
    exact congrArg some order
  all_goals rfl

/-- A NaN is equal to NaNs only. -/
theorem unordered_congr {left right : Value} (equal : (left == right) = true) :
    left.Unordered ↔ right.Unordered := by
  rw [Unordered, Unordered, point?_congr equal]

/-- Comparing does not depend on how the values are written. -/
theorem relate?_congr {left other right another : Value} (equalLeft : (left == other) = true)
    (equalRight : (right == another) = true) : left.relate? right = other.relate? another := by
  have sameOrder : left.cmp right = other.cmp another := by
    rw [Std.TransCmp.congr_left (beq_iff_cmp_eq.1 equalLeft),
      Std.TransCmp.congr_right (beq_iff_cmp_eq.1 equalRight)]
  simp only [relate?_eq, kind_congr equalLeft, kind_congr equalRight, sameOrder,
    unordered_congr equalLeft, unordered_congr equalRight]

/-- An equality constraint accepts equal values that are no NaNs. -/
theorem accepts_equal_iff {left right : Value} :
    Comparison.equal.accepts (left.relate? right) = true ↔
      (left == right) = true ∧ ¬ left.Unordered := by
  rw [relate?_eq, beq_iff_cmp_eq]
  constructor
  · intro accepted
    split at accepted
    next => cases accepted
    next comparable =>
      rw [not_or, not_or] at comparable
      exact ⟨beq_iff_eq.1 accepted, comparable.2.1⟩
  · rintro ⟨same, ordered⟩
    have equal := beq_iff_cmp_eq.2 same
    have comparable : ¬ (left.kind ≠ right.kind ∨ left.Unordered ∨ right.Unordered) := by
      rw [← unordered_congr equal]
      simp [kind_congr equal, ordered]
    rw [if_neg comparable, same]
    rfl

end Datalog.Value
