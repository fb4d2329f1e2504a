import Datalog.FactStore.Basic
import Datalog.RuleSet.Printer

/-!
# Text of fact stores

A store prints as a program of facts: relations in ascending order, and within a relation
the facts in ascending order, so that the order of insertion does not show.
-/

namespace Datalog.FactStore

/-- The facts of a relation in ascending order. -/
def sortedFactsOf (store : FactStore) (relation : String) : List Fact :=
  Fact.sort (store.factsOf relation).toList

/-- The facts of a relation as clauses in ascending order. -/
def relationText (store : FactStore) (relation : String) : String :=
  lines <| (store.sortedFactsOf relation).map fun fact =>
    fact.textIn (store.shapeOf? relation) ++ "."

/-- All facts as clauses, by relation. -/
def text (store : FactStore) : String :=
  String.join (store.relationNames.map store.relationText)

end Datalog.FactStore
