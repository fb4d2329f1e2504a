import Datalog.RuleSet.Basic

/-!
# Fact stores

A fact store collects facts by relation. Each relation keeps its facts in order of insertion
and never loses one, so the number of its facts at some moment tells the facts of that
moment from later ones. Equal facts count once, under the representation that came first.
`setOf` is the view through which `setOf_add` and `contains_iff` describe a store.
-/

namespace Datalog

/-- A stretch of the facts of a relation, from one place up to and without another. -/
structure Span where
  start : Nat
  stop : Nat
  deriving DecidableEq

/-- Facts by relation, the shapes of the relations and the number of facts. -/
structure FactStore where
  relations : Std.TreeMap String (OrderedSet Fact Fact.cmp)
  shapes : Std.TreeMap String Shape
  size : Nat

namespace FactStore

/-- The store without facts that knows the shapes of relations. -/
def withShapes (shapes : Std.TreeMap String Shape) : FactStore :=
  ⟨∅, shapes, 0⟩

/-- The store without facts and shapes. -/
def empty : FactStore :=
  withShapes ∅

instance : EmptyCollection FactStore := ⟨empty⟩

instance : Inhabited FactStore := ⟨empty⟩

/-- The facts of a relation as a set. -/
def setOf (store : FactStore) (relation : String) : OrderedSet Fact Fact.cmp :=
  store.relations.getD relation ∅

/-- The facts of a relation in order of insertion. -/
def factsOf (store : FactStore) (relation : String) : Array Fact :=
  (store.setOf relation).items

/-- The facts of a relation within a span, as far as they exist. -/
def factsIn (store : FactStore) (relation : String) (span : Span) : List Fact :=
  ((store.factsOf relation).extract span.start span.stop).toList

/-- How many facts a relation has. -/
def countOf (store : FactStore) (relation : String) : Nat :=
  (store.factsOf relation).size

/-- Whether a fact equal to this one is stored. -/
def contains (store : FactStore) (fact : Fact) : Bool :=
  (store.setOf fact.relation).contains fact

/-- Store a fact and say whether it was new. -/
def add (store : FactStore) (fact : Fact) : FactStore × Bool :=
  if store.contains fact then (store, false)
  else
    ({ store with
        relations := store.relations.alter fact.relation fun facts? =>
          some ((facts?.getD ∅).insert fact)
        size := store.size + 1 },
      true)

/-- Store facts one after the other. -/
def addMany (store : FactStore) (facts : List Fact) : FactStore :=
  facts.foldl (fun store fact => (store.add fact).1) store

/-- The relations with at least one fact, in ascending order. -/
def relationNames (store : FactStore) : List String :=
  store.relations.keys

/-- Every fact, by relation in ascending order. -/
def allFacts (store : FactStore) : List Fact :=
  store.relations.values.flatMap OrderedSet.toList

/-- The shape of a relation, if it is known. -/
def shapeOf? (store : FactStore) (relation : String) : Option Shape :=
  store.shapes[relation]?

/-- The value of a field of a fact of a named relation. -/
def field? (store : FactStore) (fact : Fact) (field : String) : Option Value :=
  match store.shapeOf? fact.relation with
  | some (.named fields) => (fields.findIdx? (· == field)).bind (fact.values[·]?)
  | _ => none

/-- Stores are equal when they know the same shapes and hold equal facts in the same order
for every relation. -/
instance : BEq FactStore where
  beq left right :=
    left.relations.toList == right.relations.toList &&
      left.shapes.toList == right.shapes.toList && left.size == right.size

/-- A store contains a fact exactly when it lists an equal one. -/
theorem contains_iff {store : FactStore} {fact : Fact} :
    store.contains fact = true ↔
      ∃ stored ∈ store.factsOf fact.relation, Fact.cmp stored fact = .eq := by
  simp [contains, factsOf, OrderedSet.contains_iff, OrderedSet.toList]

/-- Adding a fact inserts it into the set of its relation and keeps all other sets. -/
theorem setOf_add (store : FactStore) (fact : Fact) (relation : String) :
    (store.add fact).1.setOf relation =
      if fact.relation = relation then (store.setOf relation).insert fact
      else store.setOf relation := by
  by_cases present : store.contains fact = true
  · have same : (store.setOf fact.relation).insert fact = store.setOf fact.relation :=
      OrderedSet.insert_of_contains present
    simp only [add, present, if_true]
    split
    next equal => rw [← equal, same]
    next => rfl
  · simp only [add, present, setOf, Bool.false_eq_true, if_false, Std.TreeMap.getD_alter,
      Std.LawfulEqCmp.compare_eq_iff_eq]
    split
    next equal => simp [equal, Std.TreeMap.getD_eq_getD_getElem?]
    next => rfl

/-- A store grows by one with every new fact. -/
theorem size_add (store : FactStore) (fact : Fact) :
    (store.add fact).1.size = store.size + (store.add fact).2.toNat := by
  by_cases present : store.contains fact = true <;> simp [add, present]

end FactStore

end Datalog
