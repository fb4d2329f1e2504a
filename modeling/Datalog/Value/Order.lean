import Datalog.Number.Comparison
import Datalog.Value.Basic

/-!
# The order of values

Two comparisons are defined. `Value.cmp` orders all values, first by kind and then by
content, with numbers by their exact place on the number line and NaNs behind all others;
sorted output uses it. `Value.relate?` is the comparison of constraints, which answers only
for values of one kind and never for a NaN. Neither rounds an integer to a float.
-/

namespace Datalog

/-- The constraint order of the number line, in which a NaN has no place. -/
def NumberLine.relate? (left right : NumberLine) : Option Ordering :=
  match left, right with
  | nan, _ => none
  | _, nan => none
  | left, right => some (left.cmp right)

namespace Value

/-- The place of a number on the line; nothing for other values. -/
def point? : Value → Option NumberLine
  | int integer => some (.ofInt integer.toInt)
  | float number => some (.ofFloat number)
  | _ => none

/-- The total order of values: by kind, then by content. -/
def cmp : Value → Value → Ordering
  | bool left, bool right => compare left right
  | int left, int right => compare left.toInt right.toInt
  | int left, float right => (Binary64.compareInt64? left right).getD .lt
  | float left, int right => ((Binary64.compareInt64? right left).map Ordering.swap).getD .gt
  | float left, float right => left.normalized.totalCmp right.normalized
  | string left, string right => compare left right
  | keyword left, keyword right => compare left right
  | left, right => compare left.kind.rank right.kind.rank

/-- How two values compare in a constraint; nothing if they are of different kinds or one of
them is a NaN. -/
def relate? : Value → Value → Option Ordering
  | null, null => some .eq
  | bool left, bool right => some (compare left right)
  | int left, int right => some (compare left.toInt right.toInt)
  | int left, float right => Binary64.compareInt64? left right
  | float left, int right => (Binary64.compareInt64? right left).map Ordering.swap
  | float left, float right => (NumberLine.ofFloat left).relate? (.ofFloat right)
  | string left, string right => some (compare left right)
  | keyword left, keyword right => some (compare left right)
  | _, _ => none

/-- Numbers are in the order of their points. -/
theorem cmp_of_points {left right : Value} {leftPoint rightPoint : NumberLine}
    (isLeft : left.point? = some leftPoint) (isRight : right.point? = some rightPoint) :
    left.cmp right = leftPoint.cmp rightPoint := by
  cases left <;> cases right <;> cases isLeft <;> cases isRight
  case int.int.refl.refl left right => exact (NumberLine.cmp_ofInt left.toInt right.toInt).symm
  case int.float.refl.refl left right =>
    rw [cmp, Binary64.compareInt64?_eq]
    split
    next isNaN =>
      rw [NumberLine.ofFloat_eq_nan_iff.2 isNaN]
      rfl
    next => rfl
  case float.int.refl.refl left right =>
    rw [cmp, Binary64.compareInt64?_eq]
    split
    next isNaN =>
      rw [NumberLine.ofFloat_eq_nan_iff.2 isNaN]
      rfl
    next => exact Std.OrientedCmp.eq_swap.symm
  case float.float.refl.refl left right => exact Binary64.totalCmp_normalized left right

/-- The content of a value spread over one component for each way of comparing. -/
structure Content where
  rank : Nat
  truth : Bool
  point : NumberLine
  text : String

/-- The components of a value, with a constant in those that do not concern it. -/
def content (value : Value) : Content where
  rank := value.kind.rank
  truth := match value with
    | bool truth => truth
    | _ => false
  point := value.point?.getD .nan
  text := match value with
    | string text => text
    | keyword name => name
    | _ => ""

/-- The lexicographic order of contents. -/
def cmpContent : Content → Content → Ordering :=
  compareLex (compareOn Content.rank) <| compareLex (compareOn Content.truth) <|
    compareLex (fun left right => left.point.cmp right.point) (compareOn Content.text)

instance : Std.TransCmp fun left right : Content => left.point.cmp right.point where
  eq_swap := Std.OrientedCmp.eq_swap
  isLE_trans := Std.TransCmp.isLE_trans

instance : Std.TransCmp cmpContent :=
  inferInstanceAs (Std.TransCmp (compareLex _ (compareLex _ (compareLex _ _))))

/-- The total order is the lexicographic order of contents. -/
theorem cmp_eq_cmpContent (left right : Value) :
    left.cmp right = cmpContent left.content right.content := by
  cases left <;> cases right
  case int.int | int.float | float.int | float.float =>
    refine (cmp_of_points rfl rfl).trans ?_
    simp [cmpContent, content, compareLex, compareOn, point?, kind]
  all_goals
    simp [cmp, cmpContent, content, compareLex, compareOn, point?, kind, Kind.rank,
      Std.ReflCmp.compare_self] <;>
    rfl

instance : Std.TransCmp cmp where
  eq_swap {left right} := by
    rw [cmp_eq_cmpContent, cmp_eq_cmpContent]
    exact Std.OrientedCmp.eq_swap
  isLE_trans {left middle right} := by
    simp only [cmp_eq_cmpContent]
    exact Std.TransCmp.isLE_trans

/-- Values in ascending order; equal ones keep the order in which they were given. -/
def sort (values : List Value) : List Value :=
  values.mergeSort fun left right => (cmp left right).isLE

end Value

end Datalog
