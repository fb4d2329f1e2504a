import Datalog.Evaluation.Bindings
import Datalog.FactStore.Basic

/-!
# Joins

The matches of a rule are found by joining its positive atoms from left to right: each match
of the atoms so far is extended by every fact of the next atom's relation that agrees with
it. Each atom reads only a span of its relation. What survives the negated atoms and the
constraints derives the head.
-/

namespace Datalog

/-- Extend each match by the facts that an atom can be matched with, in order. -/
def Atom.extend (atom : Atom) (facts : List Fact) (frontier : List Bindings) : List Bindings :=
  frontier.flatMap fun bindings => facts.filterMap fun fact => atom.unify fact bindings

/-- Join atoms from left to right; the atom at a place, counted from `place`, reads the span
given for it. -/
def joinAtoms (store : FactStore) (spans : Nat → String → Span) :
    Nat → List Atom → List Bindings → List Bindings
  | _, [], frontier => frontier
  | place, atom :: atoms, frontier =>
      let facts := store.factsIn atom.relation (spans place atom.relation)
      joinAtoms store spans (place + 1) atoms (atom.extend facts frontier)

/-- Whether some stored fact matches a negated atom. An atom without wildcards denotes one
fact, which is looked up. -/
def Atom.isMatched (atom : Atom) (store : FactStore) (bindings : Bindings) : Bool :=
  match atom.ground? bindings with
  | some fact => store.contains fact
  | none => (store.factsOf atom.relation).toList.any fun fact => (atom.unify fact bindings).isSome

namespace Rule

/-- Whether no negated atom and no constraint refuses a match. -/
def admits (rule : Rule) (store : FactStore) (bindings : Bindings) : Bool :=
  !(rule.negative.any fun atom => atom.isMatched store bindings) &&
    rule.constraints.all fun constraint => constraint.holds bindings

/-- The heads derived from the matches within spans, in the order of the join. -/
def join (rule : Rule) (store : FactStore) (spans : Nat → String → Span) : List Fact :=
  (joinAtoms store spans 0 rule.positive [∅]).filterMap fun bindings =>
    if rule.admits store bindings then rule.head.ground? bindings else none

end Rule

end Datalog
