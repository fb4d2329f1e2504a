import Datalog.Proofs.FactStore.Insertion

/-!
# What a store remembers

A store changes by calls that add one fact or several. Whatever calls there were, the facts
of a relation are those of its facts that were added first, in the order in which they came
(`FactStore.toList_factsOf_eq_eraseDups`), and the answers of the additions, the number of
facts and the names of the relations keep step with them. `FactStore.Records` collects what
a store and its history have to do with each other, and `FactStore.records_performAll` says
that they do after every history.
-/

namespace Datalog

/-- Elements of which some may repeat each other are appended at their first occurrence, as
far as they are new. -/
theorem OrderedSet.toList_insertMany_eq_eraseDups {α : Type} [BEq α] {cmp : α → α → Ordering}
    [Std.TransCmp cmp] (beq_iff : ∀ left right : α, (left == right) = true ↔ cmp left right = .eq)
    (set : OrderedSet α cmp) (elements : List α) :
    (set.insertMany elements).toList =
      set.toList ++ (elements.filter fun element => !set.contains element).eraseDups := by
  induction elements generalizing set with
  | nil => simp [insertMany]
  | cons element elements inductionHypothesis =>
      change ((set.insert element).insertMany elements).toList = _
      rw [inductionHypothesis]
      cases present : set.contains element with
      | true => simp [insert_of_contains present, present]
      | false =>
          -- What is new from here on is new before and different from the first element.
          have stillNew : (elements.filter fun other => !(set.insert element).contains other) =
              (elements.filter fun other => !set.contains other).filter
                fun other => !other == element := by
            rw [List.filter_filter]
            refine List.filter_congr fun other _ => ?_
            have sameTest : (cmp element other == .eq) = (other == element) := by
              rw [Bool.eq_iff_iff, beq_iff_eq, beq_iff, Std.OrientedCmp.eq_comm]
            rw [contains_insert, sameTest, Bool.not_or, Bool.and_comm]
          rw [stillNew, toList_insert, present, List.filter_cons, present]
          simp [List.eraseDups_cons]

/-- A call that may change a store. -/
inductive FactStore.Call where
  | add (fact : Fact)
  | extend (facts : List Fact)

/-- The facts that a call adds, one after the other. -/
def FactStore.Call.facts : Call → List Fact
  | add fact => [fact]
  | extend facts => facts

namespace FactStore

variable {store : FactStore}

/-- The store after a call. -/
def perform (store : FactStore) : Call → FactStore
  | .add fact => (store.add fact).1
  | .extend facts => store.addMany facts

/-- The store after calls that follow each other. -/
def performAll (store : FactStore) (calls : List Call) : FactStore :=
  calls.foldl perform store

/-- Whether each of several facts was new when it was added. -/
def answers : FactStore → List Fact → List Bool
  | _, [] => []
  | store, fact :: facts => (store.add fact).2 :: answers (store.add fact).1 facts

/-- Calls add their facts one after the other. -/
theorem performAll_eq_addMany (store : FactStore) (calls : List Call) :
    store.performAll calls = store.addMany (calls.flatMap Call.facts) := by
  induction calls generalizing store with
  | nil => rfl
  | cons call calls inductionHypothesis =>
      rw [List.flatMap_cons, addMany_append]
      change (store.perform call).performAll calls = _
      rw [inductionHypothesis]
      cases call <;> rfl

/-- A store that begins without facts is well-formed after every history of calls. -/
theorem wellFormed_performAll (shapes : Std.TreeMap String Shape) (calls : List Call) :
    ((withShapes shapes).performAll calls).WellFormed := by
  rw [performAll_eq_addMany]
  exact (wellFormed_withShapes shapes).addMany _

/-- A fact is new exactly when the store does not contain it yet. -/
theorem isNew_add (store : FactStore) (fact : Fact) :
    (store.add fact).2 = !store.contains fact := by
  by_cases present : store.contains fact = true
  · rw [add_of_contains present, present]
    rfl
  · rw [isNew_of_not_contains present, Bool.eq_false_iff.2 present]
    rfl

/-- The answer of an addition is given by the store just before it. -/
theorem getElem?_answers (store : FactStore) (earlier : List Fact) (fact : Fact)
    (later : List Fact) :
    (store.answers (earlier ++ fact :: later))[earlier.length]? =
      some (!(store.addMany earlier).contains fact) := by
  induction earlier generalizing store with
  | nil => exact congrArg some (isNew_add store fact)
  | cons first earlier inductionHypothesis =>
      rw [List.cons_append, answers, List.length_cons, List.getElem?_cons_succ,
        inductionHypothesis, addMany_cons]

/-- A store grows by the facts that were new. -/
theorem size_addMany (store : FactStore) (facts : List Fact) :
    (store.addMany facts).size = store.size + (store.answers facts).count true := by
  induction facts generalizing store with
  | nil => rfl
  | cons fact facts inductionHypothesis =>
      rw [addMany_cons, inductionHypothesis, size_add, answers, List.count_cons]
      have oneMore : (if ((store.add fact).2 == true) = true then 1 else 0) =
          (store.add fact).2.toNat := by
        cases (store.add fact).2 <;> rfl
      omega

/-- A store that was empty lists the first of the facts of a relation that are equal, in the
order in which they were added. -/
theorem toList_factsOf_eq_eraseDups (shapes : Std.TreeMap String Shape) (facts : List Fact)
    (relation : String) :
    (((withShapes shapes).addMany facts).factsOf relation).toList =
      (facts.filter (·.relation = relation)).eraseDups := by
  have isEmpty : (withShapes shapes).setOf relation = ∅ := Std.TreeMap.getD_emptyc
  change (((withShapes shapes).addMany facts).setOf relation).toList = _
  rw [setOf_addMany_eq_insertMany, isEmpty,
    OrderedSet.toList_insertMany_eq_eraseDups fun _ _ => Fact.beq_iff_cmp_eq]
  simp only [OrderedSet.contains_empty, Bool.not_false, List.filter_true]
  rfl

/-- A store lists its relations one after the other, each with its facts. -/
theorem allFacts_eq_flatMap_relationNames (store : FactStore) :
    store.allFacts = store.relationNames.flatMap fun relation =>
      (store.factsOf relation).toList := by
  rw [allFacts_eq, relationNames, ← Std.TreeMap.map_fst_toList_eq_keys, List.flatMap_map]
  refine List.flatMap_congr fun entry member => ?_
  rw [factsOf, setOf, Std.TreeMap.getD_eq_getD_getElem?,
    Std.TreeMap.mem_toList_iff_getElem?_eq_some.1 member]
  rfl

/-- In a store without empty relations exactly the names of relations with facts are listed. -/
theorem Occupied.mem_relationNames_iff (occupied : store.Occupied) {relation : String} :
    relation ∈ store.relationNames ↔ ∃ fact, fact ∈ store.factsOf relation := by
  have known : relation ∈ store.relationNames ↔ store.listing[relation]?.isSome := by
    rw [relationNames, Std.TreeMap.mem_keys, Std.TreeMap.isSome_getElem?_iff_mem, listing,
      Std.TreeMap.mem_map]
  rw [known, occupied.getElem?_listing]
  split
  next noFacts => simp [noFacts]
  next someFacts => simpa using Array.exists_mem_of_ne_empty _ someFacts

/-- What is true of a store that was empty and knew shapes after a history of calls. -/
structure Records (shapes : Std.TreeMap String Shape) (calls : List Call) (store : FactStore) :
    Prop where
  /-- A relation lists no two equal facts. -/
  distinct : ∀ relation, (store.factsOf relation).toList.Pairwise fun earlier later =>
    (earlier == later) = false
  /-- A relation lists its own facts. -/
  relation_eq : ∀ relation, ∀ fact ∈ store.factsOf relation, fact.relation = relation
  /-- Of equal facts the one that was added first is listed, in the order of these. -/
  firsts : ∀ relation, (store.factsOf relation).toList =
    ((calls.flatMap Call.facts).filter (·.relation = relation)).eraseDups
  /-- What a relation lists at any moment it goes on to list first. -/
  grows : ∀ earlier later, earlier ++ later = calls.flatMap Call.facts →
    ((withShapes shapes).addMany earlier).Grows store
  /-- An addition says that the fact is new if the store did not contain it just before. -/
  answers_eq : ∀ earlier fact later, earlier ++ fact :: later = calls.flatMap Call.facts →
    ((withShapes shapes).answers (calls.flatMap Call.facts))[earlier.length]? =
      some (!((withShapes shapes).addMany earlier).contains fact)
  /-- The store contains what is equal to a fact that was added. -/
  contains_iff : ∀ fact : Fact, store.contains fact = true ↔
    ∃ added ∈ calls.flatMap Call.facts, (added == fact) = true
  /-- The size counts the facts of all relations. -/
  size_eq_sum : store.size = (store.relationNames.map store.countOf).sum
  /-- The size counts the additions that said that the fact is new. -/
  size_eq_count :
    store.size = ((withShapes shapes).answers (calls.flatMap Call.facts)).count true
  /-- The relations are those with a fact. -/
  mem_relationNames_iff : ∀ relation, relation ∈ store.relationNames ↔
    ∃ fact, fact ∈ store.factsOf relation
  /-- The relations come in strictly ascending order. -/
  ascending : store.relationNames.Pairwise fun earlier later => compare earlier later = .lt
  /-- All facts are those of each relation once, in the order of the relations. -/
  allFacts_eq : store.allFacts = store.relationNames.flatMap fun relation =>
    (store.factsOf relation).toList

/-- A store that begins without facts records every history of calls. -/
theorem records_performAll (shapes : Std.TreeMap String Shape) (calls : List Call) :
    Records shapes calls ((withShapes shapes).performAll calls) := by
  rw [performAll_eq_addMany]
  have wellFormed := (wellFormed_withShapes shapes).addMany (calls.flatMap Call.facts)
  have occupied := (occupied_withShapes shapes).addMany (calls.flatMap Call.facts)
  constructor
  · intro relation
    refine (OrderedSet.pairwise_toList _).imp fun different => ?_
    exact Bool.eq_false_iff.2 fun equal => different (Fact.beq_iff_cmp_eq.1 equal)
  · exact wellFormed.relation_eq
  · exact toList_factsOf_eq_eraseDups shapes _
  · intro earlier later isWhole
    rw [← isWhole, addMany_append]
    exact grows_addMany _ later
  · intro earlier fact later isWhole
    rw [← isWhole]
    exact getElem?_answers _ earlier fact later
  · intro fact
    refine mem_facts_addMany.trans (or_iff_right fun stored => ?_)
    obtain ⟨other, listed, _⟩ := mem_facts_iff.1 stored
    simp at listed
  · rw [← wellFormed.length_allFacts, allFacts_eq_flatMap_relationNames, List.length_flatMap]
    rfl
  · rw [size_addMany]
    exact Nat.zero_add _
  · exact fun relation => occupied.mem_relationNames_iff
  · exact Std.TreeMap.ordered_keys
  · exact allFacts_eq_flatMap_relationNames _

end FactStore

end Datalog
