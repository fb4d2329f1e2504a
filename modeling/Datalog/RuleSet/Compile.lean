import Datalog.RuleSet.Draft
import Datalog.Source.Program
import Datalog.Stratification.Basic

/-!
# From source text to rule sets

Clauses that come from a source become a rule set in two degrees. `translateClauses` only
gives them their meaning; `compileClauses` also requires the rules to have strata, and
otherwise points at the head of the rule with the negated dependency. The source serves to
locate complaints. `translate` and `compile` read the clauses from the source first.
-/

namespace Datalog.RuleSet

/-- The draft of the clauses of a source. -/
def draftClauses (source : String) (clauses : List Source.Clause) : Except Error Draft :=
  (Draft.ofClauses clauses).mapError (Complaint.error source)

/-- The rule set of the clauses of a source, which need not have strata. -/
def translateClauses (source : String) (clauses : List Source.Clause) : Except Error RuleSet :=
  Draft.ruleSet <$> draftClauses source clauses

/-- The rule set of the clauses of a source. -/
def compileClauses (source : String) (clauses : List Source.Clause) : Except Error RuleSet := do
  let draft ← draftClauses source clauses
  match stratify draft.ruleSet with
  | .ok _ => return draft.ruleSet
  | .error cycle =>
      let head? := draft.heads[cycle.rule]?
      throw (.faulty cycle.fault (head?.map fun head => .locate source head.offset))

/-- The rule set of a source, which need not have strata. -/
def translate (source : String) : Except Error RuleSet := do
  translateClauses source (← Source.parse source)

/-- The rule set of a source. -/
def compile (source : String) : Except Error RuleSet := do
  compileClauses source (← Source.parse source)

end Datalog.RuleSet
