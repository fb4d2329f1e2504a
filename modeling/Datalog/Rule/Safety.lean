import Std.Data.TreeSet.Lemmas
import Datalog.Rule.Basic

/-!
# Safety of rules

A rule is safe when every variable of its head, its negated atoms and its constraints occurs
in a positive atom, which gives it a value in every match. `unboundVariable?` finds the
first variable that breaks this.
-/

namespace Datalog

/-- A part of a rule whose variables must have values. -/
inductive Place where
  | head
  | negatedAtom
  | constraint
  deriving DecidableEq, Inhabited

/-- A place in words. -/
def Place.description : Place → String
  | head => "the rule head"
  | negatedAtom => "a negated atom"
  | constraint => "a constraint"

namespace Rule

/-- The variables that the positive atoms give values to. -/
def boundVariables (rule : Rule) : Std.TreeSet String :=
  .ofList (rule.positive.flatMap Atom.variables)

/-- The variables that need values, with their places: those of the head, then of the
negated atoms, then of the constraints. -/
def demands (rule : Rule) : List (String × Place) :=
  rule.head.variables.map (·, .head) ++
    (rule.negative.flatMap Atom.variables).map (·, .negatedAtom) ++
    (rule.constraints.flatMap Constraint.variables).map (·, .constraint)

/-- The first variable that needs a value and gets none. -/
def unboundVariable? (rule : Rule) : Option (String × Place) :=
  let bound := rule.boundVariables
  rule.demands.find? fun demand => !bound.contains demand.1

/-- A rule is safe when every variable that needs a value occurs in a positive atom. -/
def Safe (rule : Rule) : Prop :=
  ∀ demand ∈ rule.demands, ∃ atom ∈ rule.positive, demand.1 ∈ atom.variables

/-- A variable is bound when it occurs in a positive atom. -/
theorem contains_boundVariables {rule : Rule} {name : String} :
    rule.boundVariables.contains name = true ↔
      ∃ atom ∈ rule.positive, name ∈ atom.variables := by
  simp [boundVariables, Std.TreeSet.contains_ofList]

/-- No unbound variable is found exactly in the safe rules. -/
theorem unboundVariable?_eq_none_iff {rule : Rule} :
    rule.unboundVariable? = none ↔ rule.Safe := by
  simp only [unboundVariable?, List.find?_eq_none, Bool.not_eq_true', Bool.not_eq_false,
    contains_boundVariables, Safe]

end Rule

end Datalog
