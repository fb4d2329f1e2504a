import Datalog.Evaluation.Passes
import Datalog.RuleSet.Check
import Datalog.Stratification.Basic

/-!
# Evaluation

A rule set is evaluated bottom-up: its explicit facts are stored, and then each stratum in
turn is closed under its rules. Faults of the rule set come before any limit.
-/

namespace Datalog.RuleSet

/-- The rules of a stratum. -/
def rulesOf (ruleSet : RuleSet) (stratum : Stratum) : List Rule :=
  stratum.rules.filterMap (ruleSet.rules[·]?)

/-- Close strata one after the other; the first one has the given number. -/
def closeStrata (ruleSet : RuleSet) (limits : Limits) :
    Nat → List Stratum → FactStore → Except Exhaustion FactStore
  | _, [], store => .ok store
  | number, stratum :: strata, store => do
      let rules := ruleSet.rulesOf stratum
      let closed ← limits.closeStratum number rules limits.maxPasses none store
      ruleSet.closeStrata limits (number + 1) strata closed

/-- The store of everything that strata derive from the explicit facts. -/
def run (ruleSet : RuleSet) (limits : Limits) (stratification : Stratification) :
    Except Exhaustion FactStore := do
  let (seeded, _) ← limits.addFacts ruleSet.facts.toList (.withShapes ruleSet.shapes) 0
  ruleSet.closeStrata limits 1 stratification.strata seeded

/-- The store of everything that a rule set implies. -/
def evaluate (ruleSet : RuleSet) (limits : Limits) : Except Error FactStore := do
  ruleSet.check
  let stratification ← (stratify ruleSet).mapError fun cycle => .faulty cycle.fault none
  (ruleSet.run limits stratification).mapError .exhausted

end Datalog.RuleSet
