import Datalog.RuleSet.Basic
import Datalog.Rule.Printer

/-!
# Text of rule sets

A rule set prints as a program: its facts and then its rules, one clause a line, in order of
insertion.
-/

namespace Datalog

/-- Clauses, each on a line of its own. -/
def lines (clauses : List String) : String :=
  String.join (clauses.map (· ++ "\n"))

/-- The program of a rule set. -/
def RuleSet.text (ruleSet : RuleSet) : String :=
  lines (ruleSet.facts.toList.map fun fact =>
      fact.textIn (ruleSet.shapeOf? fact.relation) ++ ".") ++
    lines (ruleSet.rules.toList.map Rule.text)

end Datalog
