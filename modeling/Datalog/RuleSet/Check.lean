import Datalog.Error
import Datalog.RuleSet.Basic

/-!
# Checking rule sets

A rule set can be evaluated when every fact and every atom has the shape of its relation and
every rule is safe. Facts carry no field names, so a fact of a named relation has its shape
when it has a value for each field.
-/

namespace Datalog.RuleSet

/-- The disagreement between the shape of a relation and a use of it. -/
def mismatch? (ruleSet : RuleSet) (relation : String) (used : Shape) : Option Fault :=
  match ruleSet.shapeOf? relation with
  | some declared => if declared = used then none else some (.shapeMismatch relation declared used)
  | none => none

/-- The shape in which a fact uses its relation. -/
def shapeOfFact (ruleSet : RuleSet) (fact : Fact) : Shape :=
  match ruleSet.shapeOf? fact.relation with
  | some (.named fields) =>
      if fields.length = fact.values.length then .named fields else .ordered fact.values.length
  | _ => .ordered fact.values.length

/-- The fault of a single rule: a use of a relation in another shape, or else an unsafe
variable. -/
def ruleFault? (ruleSet : RuleSet) (rule : Rule) : Option Fault :=
  (rule.usages.findSome? fun usage => ruleSet.mismatch? usage.1 usage.2) <|>
    rule.unboundVariable?.map fun unbound => .unsafeVariable unbound.1 unbound.2

/-- The first fault of a rule set, looking at the facts and then at the rules. -/
def fault? (ruleSet : RuleSet) : Option Fault :=
  (ruleSet.facts.toList.findSome? fun fact =>
      ruleSet.mismatch? fact.relation (ruleSet.shapeOfFact fact)) <|>
    ruleSet.rules.toList.findSome? ruleSet.ruleFault?

/-- Accept a rule set without faults. -/
def check (ruleSet : RuleSet) : Except Error Unit :=
  match ruleSet.fault? with
  | some fault => .error (.faulty fault none)
  | none => .ok ()

end Datalog.RuleSet
