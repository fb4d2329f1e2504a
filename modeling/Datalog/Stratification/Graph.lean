import Datalog.Collection.NameTable
import Datalog.RuleSet.Basic
import Datalog.Stratification.Search

/-!
# The dependency graph of a rule set

Relations are the nodes, numbered as the rules mention them: each head, then the relations
of its body. Every body atom is an edge from its relation to that of the head, and remembers
its rule and whether it is negated.
-/

namespace Datalog

/-- A body atom as a dependency of the head's relation on that of the atom. -/
structure Dependency where
  source : Nat
  target : Nat
  negated : Bool
  rule : Nat
  deriving DecidableEq

/-- Numbered relations and the dependencies between them, in the order of the rules. -/
structure DependencyGraph where
  names : NameTable
  dependencies : Array Dependency

namespace DependencyGraph

/-- The graph without relations. -/
def empty : DependencyGraph := ⟨∅, #[]⟩

/-- Add the dependency of a numbered head on a body atom. -/
def addAtom (target rule : Nat) (negated : Bool) (graph : DependencyGraph) (atom : Atom) :
    DependencyGraph :=
  let (names, source) := graph.names.intern atom.relation
  ⟨names, graph.dependencies.push ⟨source, target, negated, rule⟩⟩

/-- Add the dependencies of a rule, positive atoms first. -/
def addRule (graph : DependencyGraph) (entry : Rule × Nat) : DependencyGraph :=
  let (rule, index) := entry
  let (names, target) := graph.names.intern rule.head.relation
  let withHead := { graph with names }
  let withPositive := rule.positive.foldl (addAtom target index false) withHead
  rule.negative.foldl (addAtom target index true) withPositive

/-- The dependency graph of rules, which are numbered by their places. Any number of relations
have numbers of their own; how far labels of 32 bits serve instead is settled for
`EdgeTable.ofRules`. -/
def ofRules (rules : List Rule) : DependencyGraph :=
  rules.zipIdx.foldl addRule empty

/-- How many relations there are. -/
def size (graph : DependencyGraph) : Nat :=
  graph.names.size

/-- The dependencies on each relation, in the order of the rules. -/
def bySource (graph : DependencyGraph) : Array (List Dependency) :=
  distribute graph.size (graph.dependencies.toList.map fun edge => (edge.source, edge))

/-- The graph in the form in which it is searched. -/
def successors (graph : DependencyGraph) : Successors :=
  graph.bySource.map (·.map Dependency.target)

end DependencyGraph

end Datalog
