import Datalog.RuleSet.Printer
import Datalog.Stratification.Basic

/-!
# Text of strata

The report gives each stratum a heading with its number from one, whether it is recursive
and its relations, and lists its rules below, indented by two blanks.
-/

namespace Datalog

/-- The heading of a stratum. -/
def Stratum.heading (stratum : Stratum) (number : Nat) : String :=
  "#" ++ toString number ++ (if stratum.recursive then " [recursive] " else " [non-recursive] ") ++
    commaSeparated stratum.relations

/-- The report of the strata of a rule set. -/
def Stratification.report (stratification : Stratification) (ruleSet : RuleSet) : String :=
  lines <| stratification.strata.zipIdx.flatMap fun (stratum, place) =>
    stratum.heading (place + 1) ::
      stratum.rules.filterMap fun rule => ruleSet.rules[rule]?.map fun rule => "  " ++ rule.text

end Datalog
