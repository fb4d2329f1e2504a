import Mathlib.Logic.ExistsUnique
import Datalog.Evaluation.Bindings
import Datalog.Proofs.Value.Comparison

/-!
# The six operators

A constraint whose operands have values asks for one outcome of comparing these. Where both
are of one kind and no NaN, the outcome is that of the total order, so `<`, `=` and `>`
exclude each other and one of them holds, and `<=` and `>=` are their unions; `!=` denies `=`
for all operands. `Value.ordersConstraints` collects this and that equal operands can stand
for each other.
-/

namespace Datalog

namespace Value

/-- A value is a float that is not a number. -/
def IsNaN (value : Value) : Prop :=
  ∃ number, value = float number ∧ number.isNaN = true

/-- The values at the last point of the line are the NaNs. -/
theorem unordered_iff_isNaN {value : Value} : value.Unordered ↔ value.IsNaN := by
  cases value with
  | int integer => simp [not_unordered_int, IsNaN]
  | float number => simp [Unordered, point?, IsNaN, NumberLine.ofFloat_eq_nan_iff]
  | _ => simp [Unordered, point?, IsNaN]

instance (value : Value) : Decidable value.IsNaN :=
  decidable_of_iff value.Unordered unordered_iff_isNaN

/-- Two values are comparable: they are of one kind and neither is a NaN. -/
structure Comparable (left right : Value) : Prop where
  kind : left.kind = right.kind
  left : ¬ left.IsNaN
  right : ¬ right.IsNaN

/-- Values are comparable unless they differ in kind or one of them is a NaN. -/
theorem comparable_iff {left right : Value} :
    left.Comparable right ↔
      ¬ (left.kind ≠ right.kind ∨ left.Unordered ∨ right.Unordered) := by
  rw [not_or, not_or, Decidable.not_not, unordered_iff_isNaN, unordered_iff_isNaN]
  exact ⟨fun ⟨kind, left, right⟩ => ⟨kind, left, right⟩,
    fun ⟨kind, left, right⟩ => ⟨kind, left, right⟩⟩

/-- Comparable values compare by their total order. -/
theorem Comparable.relate?_eq {left right : Value} (comparable : left.Comparable right) :
    left.relate? right = some (left.cmp right) := by
  rw [Value.relate?_eq, if_neg (comparable_iff.1 comparable)]

/-- Exactly the comparable values compare. -/
theorem relate?_eq_none_iff {left right : Value} :
    left.relate? right = none ↔ left.kind ≠ right.kind ∨ left.IsNaN ∨ right.IsNaN := by
  rw [← unordered_iff_isNaN, ← unordered_iff_isNaN, Value.relate?_eq]
  split
  next incomparable => simp [incomparable]
  next comparable => simp [comparable]

end Value

namespace Comparison

/-- Inequality accepts what equality does not. -/
theorem accepts_notEqual (outcome : Option Ordering) :
    notEqual.accepts outcome = !equal.accepts outcome := by
  rcases outcome with none | (lt | eq | gt) <;> rfl

/-- An upper bound may be strict or attained. -/
theorem accepts_lessOrEqual (outcome : Option Ordering) :
    lessOrEqual.accepts outcome = (less.accepts outcome || equal.accepts outcome) := by
  rcases outcome with none | (lt | eq | gt) <;> rfl

/-- A lower bound may be strict or attained. -/
theorem accepts_greaterOrEqual (outcome : Option Ordering) :
    greaterOrEqual.accepts outcome = (greater.accepts outcome || equal.accepts outcome) := by
  rcases outcome with none | (lt | eq | gt) <;> rfl

/-- Three operators share the outcomes among them. -/
theorem existsUnique_accepts (order : Ordering) :
    ∃! operator, operator ∈ [less, equal, greater] ∧ operator.accepts (some order) = true := by
  cases order
  case lt => exact ⟨less, by decide, fun operator => by cases operator <;> decide⟩
  case eq => exact ⟨equal, by decide, fun operator => by cases operator <;> decide⟩
  case gt => exact ⟨greater, by decide, fun operator => by cases operator <;> decide⟩

/-- An operator holds between two values. -/
def Holds (operator : Comparison) (left right : Value) : Prop :=
  operator.accepts (left.relate? right) = true

end Comparison

namespace Value

/-- The order of constraints is the total order of comparable values and respects equality. -/
structure OrdersConstraints : Prop where
  /-- A constraint holds when its operator does between the values of its operands. -/
  holds_iff (constraint : Constraint) (bindings : Bindings) (left right : Value) :
    bindings.get? constraint.left = some left →
      constraint.right.resolve? bindings = some right →
      (constraint.holds bindings = true ↔ constraint.operator.Holds left right)
  /-- Values do not compare if they are of different kinds or one of them is a NaN. -/
  relate?_eq_none_iff (left right : Value) :
    left.relate? right = none ↔ left.kind ≠ right.kind ∨ left.IsNaN ∨ right.IsNaN
  /-- Comparable values compare by their total order. -/
  relate?_eq_some (left right : Value) :
    left.Comparable right → left.relate? right = some (left.cmp right)
  /-- Apart from NaNs, equality in constraints is equality of values. -/
  equal_iff (left right : Value) :
    ¬ left.IsNaN → ¬ right.IsNaN →
      (Comparison.equal.Holds left right ↔ (left == right) = true)
  /-- Inequality denies equality, whatever the operands are. -/
  notEqual_iff (left right : Value) :
    Comparison.notEqual.Holds left right ↔ ¬ Comparison.equal.Holds left right
  /-- One of three operators holds between comparable values, and no other of them. -/
  existsUnique_holds (left right : Value) :
    left.Comparable right →
      ∃! operator, operator ∈ [Comparison.less, .equal, .greater] ∧ operator.Holds left right
  /-- An upper bound may be strict or attained. -/
  lessOrEqual_iff (left right : Value) :
    Comparison.lessOrEqual.Holds left right ↔
      Comparison.less.Holds left right ∨ Comparison.equal.Holds left right
  /-- A lower bound may be strict or attained. -/
  greaterOrEqual_iff (left right : Value) :
    Comparison.greaterOrEqual.Holds left right ↔
      Comparison.greater.Holds left right ∨ Comparison.equal.Holds left right
  /-- Equal values compare alike with equal values. -/
  relate?_eq_of_beq (left other right another : Value) :
    (left == other) = true → (right == another) = true →
      left.relate? right = other.relate? another

/-- Constraints follow the total order wherever values are comparable. -/
theorem ordersConstraints : OrdersConstraints where
  holds_iff constraint bindings left right isLeft isRight := by
    rw [Constraint.holds, isLeft, isRight, Comparison.Holds]
  relate?_eq_none_iff _ _ := relate?_eq_none_iff
  relate?_eq_some _ _ comparable := comparable.relate?_eq
  equal_iff left right ordered _ := by
    rw [Comparison.Holds, accepts_equal_iff, unordered_iff_isNaN]
    exact and_iff_left ordered
  notEqual_iff left right := by
    rw [Comparison.Holds, Comparison.accepts_notEqual, Bool.not_eq_true', Comparison.Holds,
      Bool.not_eq_true]
  existsUnique_holds left right comparable := by
    simp only [Comparison.Holds, comparable.relate?_eq]
    exact Comparison.existsUnique_accepts _
  lessOrEqual_iff left right := by
    rw [Comparison.Holds, Comparison.accepts_lessOrEqual, Bool.or_eq_true]
    rfl
  greaterOrEqual_iff left right := by
    rw [Comparison.Holds, Comparison.accepts_greaterOrEqual, Bool.or_eq_true]
    rfl
  relate?_eq_of_beq _ _ _ _ := relate?_congr

/-- The integer below `2.5` and the float are comparable, and so exactly one of three operators
holds between them. -/
theorem existsUnique_holds_two :
    (int 2).Comparable (float ⟨0x4004000000000000⟩) ∧
      ∃! operator, operator ∈ [Comparison.less, .equal, .greater] ∧
        operator.Holds (int 2) (float ⟨0x4004000000000000⟩) := by
  have comparable : (int 2).Comparable (float ⟨0x4004000000000000⟩) :=
    ⟨rfl, by decide +kernel, by decide +kernel⟩
  exact ⟨comparable, ordersConstraints.existsUnique_holds _ _ comparable⟩

end Value

end Datalog
