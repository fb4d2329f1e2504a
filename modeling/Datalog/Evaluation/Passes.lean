import Datalog.Error
import Datalog.Evaluation.Join

/-!
# Passes

A pass fires the rules of a stratum on the facts present at its start. After the first pass
a rule need only consider matches that use a fact added by the pass before: for each place
among its positive atoms, the atom there reads the new facts, the atoms before it the old
ones and the atoms after it all of them, so every match is found exactly once. A stratum is
closed by the first pass that adds nothing.
-/

namespace Datalog

/-- How many facts each relation had at some moment. -/
structure Snapshot where
  counts : Std.TreeMap String Nat

namespace Snapshot

/-- The counts of the relations that the positive atoms of rules read. -/
def take (rules : List Rule) (store : FactStore) : Snapshot where
  counts := (rules.flatMap Rule.positive).foldl
    (fun counts atom => counts.insert atom.relation (store.countOf atom.relation)) ∅

/-- How many facts a relation had. -/
def countOf (snapshot : Snapshot) (relation : String) : Nat :=
  snapshot.counts.getD relation 0

/-- All facts of a relation. -/
def everything (snapshot : Snapshot) (relation : String) : Span :=
  ⟨0, snapshot.countOf relation⟩

end Snapshot

/-- The spans of a join in which the atom at `newest` reads the facts that came between two
snapshots, those before it the facts of the first, and those after it all facts. -/
def deltaSpans (previous current : Snapshot) (newest place : Nat) (relation : String) : Span :=
  let old := min (previous.countOf relation) (current.countOf relation)
  match compare place newest with
  | .lt => ⟨0, old⟩
  | .eq => ⟨old, current.countOf relation⟩
  | .gt => current.everything relation

/-- The heads of the matches of a rule that use a fact added since the previous snapshot, or
of all its matches in the first pass. -/
def Rule.fire (rule : Rule) (store : FactStore) (previous : Option Snapshot)
    (current : Snapshot) : List Fact :=
  match previous with
  | none => rule.join store fun _ relation => current.everything relation
  | some previous =>
      rule.positive.zipIdx.flatMap fun (atom, newest) =>
        if previous.countOf atom.relation < current.countOf atom.relation then
          rule.join store (deltaSpans previous current newest)
        else []

/-- Bounds on the facts of a store and on the passes over a stratum. -/
structure Limits where
  maxFacts : Nat
  maxPasses : Nat
  deriving DecidableEq

namespace Limits

/-- The limits in force unless others are given. -/
def standard : Limits := ⟨1000000, 10000⟩

/-- The widest limits. -/
def unbounded : Limits := ⟨2 ^ 64 - 1, 2 ^ 64 - 1⟩

instance : Inhabited Limits := ⟨standard⟩

/-- Store a fact unless the store is full and say whether it was new. A fact that is already
stored needs no room. -/
def addFact (limits : Limits) (store : FactStore) (fact : Fact) :
    Except Exhaustion (FactStore × Bool) :=
  if store.contains fact then .ok (store, false)
  else if limits.maxFacts ≤ store.size then .error (.facts limits.maxFacts fact.relation)
  else .ok (store.add fact)

/-- Store facts one after the other and count the new ones. -/
def addFacts (limits : Limits) : List Fact → FactStore → Nat →
    Except Exhaustion (FactStore × Nat)
  | [], store, added => .ok (store, added)
  | fact :: facts, store, added => do
      let (store, isNew) ← limits.addFact store fact
      limits.addFacts facts store (if isNew then added + 1 else added)

/-- Repeat passes over the rules of a stratum until one adds nothing; the last number says
how many more passes are allowed. -/
def closeStratum (limits : Limits) (number : Nat) (rules : List Rule) :
    Nat → Option Snapshot → FactStore → Except Exhaustion FactStore
  | 0, _, _ => .error (.passes limits.maxPasses number)
  | remaining + 1, previous, store => do
      let current := Snapshot.take rules store
      let derived := rules.flatMap fun rule => rule.fire store previous current
      let (store, added) ← limits.addFacts derived store 0
      if added = 0 then return store
      else limits.closeStratum number rules remaining (some current) store

end Limits

end Datalog
