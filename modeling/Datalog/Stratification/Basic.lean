import Datalog.Error
import Datalog.Stratification.Graph

/-!
# Strata

Rules are evaluated together when their heads depend on each other. Each strongly connected
component of the dependency graph that defines a relation is a stratum, and strata come in
an order in which every dependency leads forward. A negated dependency must not stay inside
a component: then the relation it reads would not be closed before it is read.
-/

namespace Datalog

/-- Rules that are evaluated together. -/
structure Stratum where
  /-- The places of the rules in the rule set, in increasing order. -/
  rules : List Nat
  /-- The relations that the rules define, in the order in which rules mention them. -/
  relations : List String
  /-- Whether some relation of the stratum depends on one of the stratum. -/
  recursive : Bool
  deriving DecidableEq

/-- Strata in the order of evaluation. -/
structure Stratification where
  strata : List Stratum
  deriving DecidableEq

/-- A rule that negates a relation its head's relation is needed for. -/
structure NegativeCycle where
  relation : String
  rule : Nat
  deriving DecidableEq

/-- The fault of a rule set with a negative cycle. -/
def NegativeCycle.fault (cycle : NegativeCycle) : Fault :=
  .unstratifiable cycle.relation

/-- The place of the stratum that defines a relation; relations without rules have none. -/
def Stratification.stratumOf? (stratification : Stratification) (relation : String) :
    Option Nat :=
  stratification.strata.findIdx? fun stratum => stratum.relations.contains relation

namespace DependencyGraph

/-- The dependencies between relations of one component. -/
def internal (graph : DependencyGraph) (numbers : Array Nat) : List Dependency :=
  graph.dependencies.toList.filter fun edge => numbers[edge.source]? == numbers[edge.target]?

/-- The dependency of the earlier rule, or, in one rule, on the relation mentioned earlier. -/
def earlier (chosen : Option Dependency) (edge : Dependency) : Option Dependency :=
  match chosen with
  | none => some edge
  | some best =>
      if edge.rule < best.rule ∨ edge.rule = best.rule ∧ edge.source < best.source then
        some edge
      else some best

/-- The negative cycle of the earliest rule that has one. -/
def negativeCycle? (graph : DependencyGraph) (numbers : Array Nat) : Option NegativeCycle :=
  (((graph.internal numbers).filter Dependency.negated).foldl earlier none).map fun edge =>
    ⟨(graph.names.name? edge.source).getD "", edge.rule⟩

/-- The strata of the components, leaving out those without rules. -/
def strata (graph : DependencyGraph) (numbers : Array Nat) (count : Nat) (rules : List Rule) :
    List Stratum :=
  let componentOf (node : Nat) : Nat := numbers.getD node count
  let members := distribute count <|
    (List.range graph.size).map fun node => (componentOf node, node)
  let rulesOf := distribute count <| rules.zipIdx.map fun entry =>
    (((graph.names.number? entry.1.head.relation).map componentOf).getD count, entry.2)
  let recursive := (graph.internal numbers).foldl
    (fun flags edge => flags.setIfInBounds (componentOf edge.source) true)
    (Array.replicate count false)
  (List.range count).filterMap fun component =>
    let nodes := members.getD component []
    match rulesOf.getD component [] with
    | [] => none
    | rules => some {
        rules
        relations := nodes.filterMap graph.names.name?
        recursive := recursive.getD component false || 1 < nodes.length }

end DependencyGraph

/-- The strata of rules, or the negative cycle of the earliest rule that has one. -/
def stratifyRules (rules : List Rule) : Except NegativeCycle Stratification :=
  let graph := DependencyGraph.ofRules rules
  let found := components graph.successors
  let numbers := componentNumbers graph.size found
  match graph.negativeCycle? numbers with
  | some cycle => .error cycle
  | none => .ok ⟨graph.strata numbers found.length rules⟩

/-- The strata of a rule set, or the negative cycle of the earliest rule that has one. -/
def stratify (ruleSet : RuleSet) : Except NegativeCycle Stratification :=
  stratifyRules ruleSet.rules.toList

end Datalog
