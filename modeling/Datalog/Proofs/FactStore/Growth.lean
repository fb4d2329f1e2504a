import Mathlib.Data.Set.Card
import Datalog.FactStore.Basic

/-!
# How stores grow

The content of a store is the set of facts it contains, under any representation. Adding
facts enlarges it by exactly these facts (`mem_facts_addMany`) and only appends to the facts
of a relation (`grows_addMany`). `WellFormed` is what every store built from the empty one
satisfies: facts stand under their own relation and are counted once, so the content alone
determines the size.
-/

namespace Datalog

/-- Equal facts are of one relation. -/
theorem Fact.relation_congr {left right : Fact} (equal : (left == right) = true) :
    left.relation = right.relation := by
  have same := Canonical.beq_iff.1 equal
  simp only [canonical, mk.injEq] at same
  exact same.1

namespace FactStore

variable {store later : FactStore}

/-- The content of a store: what is equal to a stored fact. -/
def facts (store : FactStore) : Set Fact :=
  {fact | store.contains fact = true}

/-- A fact is in a store if its relation lists an equal one. -/
theorem mem_facts_iff {fact : Fact} :
    fact ∈ store.facts ↔ ∃ stored ∈ store.factsOf fact.relation, (stored == fact) = true := by
  rw [facts, Set.mem_ofPred_eq, contains_iff]
  simp only [Fact.beq_iff_cmp_eq]

/-- The content of a store does not depend on how facts are written. -/
theorem mem_facts_congr {fact other : Fact} (equal : (fact == other) = true)
    (member : fact ∈ store.facts) : other ∈ store.facts := by
  obtain ⟨stored, isStored, same⟩ := mem_facts_iff.1 member
  exact mem_facts_iff.2 ⟨stored, Fact.relation_congr equal ▸ isStored, BEq.trans same equal⟩

/-- What a relation lists under its own name is in the store. -/
theorem mem_facts_of_mem_factsOf {relation : String} {fact : Fact}
    (isStored : fact ∈ store.factsOf relation) (ofRelation : fact.relation = relation) :
    fact ∈ store.facts :=
  mem_facts_iff.2 ⟨fact, ofRelation ▸ isStored, BEq.rfl⟩

/-- A fact that is stored already changes nothing. -/
theorem add_of_contains {fact : Fact} (present : store.contains fact = true) :
    store.add fact = (store, false) := by
  rw [add, if_pos present]

/-- A fact that is not stored yet is new. -/
theorem isNew_of_not_contains {fact : Fact} (absent : ¬ store.contains fact = true) :
    (store.add fact).2 = true := by
  rw [add, if_neg absent]

/-- A fact that is not stored yet makes a store larger by one. -/
theorem size_add_of_not_contains {fact : Fact} (absent : ¬ store.contains fact = true) :
    (store.add fact).1.size = store.size + 1 := by
  rw [size_add, isNew_of_not_contains absent, Bool.toNat_true]

/-- Facts are added from the first one on. -/
theorem addMany_cons (store : FactStore) (fact : Fact) (facts : List Fact) :
    store.addMany (fact :: facts) = (store.add fact).1.addMany facts := rfl

/-- Adding a fact enlarges a store by this fact. -/
theorem mem_facts_add {fact other : Fact} :
    other ∈ (store.add fact).1.facts ↔ other ∈ store.facts ∨ (fact == other) = true := by
  simp only [facts, Set.mem_ofPred_eq, contains, setOf_add]
  split
  next => simp [OrderedSet.contains_insert, Fact.beq_iff_cmp_eq]
  next different =>
    exact (or_iff_left fun equal => different (Fact.relation_congr equal)).symm

/-- Adding facts enlarges a store by these facts. -/
theorem mem_facts_addMany {facts : List Fact} {other : Fact} :
    other ∈ (store.addMany facts).facts ↔
      other ∈ store.facts ∨ ∃ fact ∈ facts, (fact == other) = true := by
  induction facts generalizing store with
  | nil => simp [addMany]
  | cons fact facts inductionHypothesis =>
      rw [addMany_cons, inductionHypothesis, mem_facts_add, or_assoc, List.exists_mem_cons_iff]

/-- What a relation lists after adding a fact was listed before or is this fact. -/
theorem mem_factsOf_of_add {fact other : Fact} {relation : String}
    (isStored : other ∈ (store.add fact).1.factsOf relation) :
    other ∈ store.factsOf relation ∨ other = fact ∧ fact.relation = relation := by
  have inSet : other ∈ ((store.add fact).1.setOf relation).toList :=
    Array.mem_toList_iff.2 isStored
  rw [setOf_add] at inSet
  split at inSet
  next ofRelation =>
    rw [OrderedSet.toList_insert] at inSet
    split at inSet
    next => exact .inl (Array.mem_toList_iff.1 inSet)
    next =>
      rcases List.mem_append.1 inSet with old | new
      · exact .inl (Array.mem_toList_iff.1 old)
      · exact .inr ⟨List.mem_singleton.1 new, ofRelation⟩
  next => exact .inl (Array.mem_toList_iff.1 inSet)

/-- A store keeps the facts of every relation at their places. -/
def Grows (store later : FactStore) : Prop :=
  ∀ relation, (store.factsOf relation).toList <+: (later.factsOf relation).toList

/-- A store grows into itself. -/
theorem Grows.refl (store : FactStore) : store.Grows store := fun _ => List.prefix_rfl

/-- Growth composes. -/
theorem Grows.trans {last : FactStore} (first : store.Grows later) (second : later.Grows last) :
    store.Grows last := fun relation => (first relation).trans (second relation)

/-- A relation has no fewer facts later. -/
theorem Grows.countOf_le (grows : store.Grows later) (relation : String) :
    store.countOf relation ≤ later.countOf relation := by
  simpa [countOf] using (grows relation).length_le

/-- A fact keeps its place. -/
theorem Grows.getElem?_factsOf (grows : store.Grows later) {relation : String} {index : Nat}
    (inBounds : index < store.countOf relation) :
    (later.factsOf relation)[index]? = (store.factsOf relation)[index]? := by
  obtain ⟨added, isPrefix⟩ := grows relation
  rw [← Array.getElem?_toList, ← Array.getElem?_toList, ← isPrefix]
  exact List.getElem?_append_left (by simpa [countOf] using inBounds)

/-- Adding a fact only appends. -/
theorem grows_add (store : FactStore) (fact : Fact) : store.Grows (store.add fact).1 := by
  intro relation
  simp only [factsOf, setOf_add]
  split
  next =>
    change (store.setOf relation).toList <+: ((store.setOf relation).insert fact).toList
    rw [OrderedSet.toList_insert]
    split
    next => exact List.prefix_rfl
    next => exact List.prefix_append _ _
  next => exact List.prefix_rfl

/-- Adding facts only appends. -/
theorem grows_addMany (store : FactStore) (facts : List Fact) :
    store.Grows (store.addMany facts) := by
  induction facts generalizing store with
  | nil => exact .refl store
  | cons fact facts inductionHypothesis =>
      exact (grows_add store fact).trans (inductionHypothesis (store.add fact).1)

/-- Adding facts of other relations leaves a relation alone. -/
theorem setOf_addMany {facts : List Fact} {relation : String}
    (others : ∀ fact ∈ facts, fact.relation ≠ relation) :
    (store.addMany facts).setOf relation = store.setOf relation := by
  induction facts generalizing store with
  | nil => rfl
  | cons fact facts inductionHypothesis =>
      obtain ⟨other, others⟩ := List.forall_mem_cons.1 others
      rw [addMany_cons, inductionHypothesis others, setOf_add, if_neg other]

/-- A store in which facts stand under their own relation and are counted once. -/
structure WellFormed (store : FactStore) : Prop where
  /-- A relation lists its own facts. -/
  relation_eq : ∀ relation, ∀ fact ∈ store.factsOf relation, fact.relation = relation
  /-- The size counts facts up to representation. -/
  encard_eq : (canonical '' store.facts).encard = store.size

/-- A store without facts lists none. -/
@[simp] theorem factsOf_withShapes (shapes : Std.TreeMap String Shape) (relation : String) :
    (withShapes shapes).factsOf relation = #[] := by
  simp only [factsOf, setOf, withShapes, Std.TreeMap.getD_emptyc]
  rfl

/-- A store without facts is well-formed. -/
theorem wellFormed_withShapes (shapes : Std.TreeMap String Shape) :
    (withShapes shapes).WellFormed := by
  constructor
  · simp
  · have noFacts : (withShapes shapes).facts = ∅ := by
      ext fact
      simp [mem_facts_iff]
    rw [noFacts, Set.image_empty, Set.encard_empty]
    rfl

/-- Adding a fact keeps a store well-formed. -/
theorem WellFormed.add (wellFormed : store.WellFormed) (fact : Fact) :
    (store.add fact).1.WellFormed := by
  by_cases present : store.contains fact = true
  · rw [add_of_contains present]
    exact wellFormed
  constructor
  · intro relation other isStored
    rcases mem_factsOf_of_add isStored with old | ⟨rfl, ofRelation⟩
    · exact wellFormed.relation_eq relation other old
    · exact ofRelation
  · have grown : canonical '' (store.add fact).1.facts =
        insert (canonical fact) (canonical '' store.facts) := by
      ext other
      constructor
      · rintro ⟨found, member, rfl⟩
        rcases mem_facts_add.1 member with old | equal
        · exact .inr ⟨found, old, rfl⟩
        · exact .inl (Canonical.beq_iff.1 equal).symm
      · rintro (rfl | ⟨found, member, rfl⟩)
        · exact ⟨fact, mem_facts_add.2 (.inr BEq.rfl), rfl⟩
        · exact ⟨found, mem_facts_add.2 (.inl member), rfl⟩
    have isNew : canonical fact ∉ canonical '' store.facts := by
      rintro ⟨found, member, equal⟩
      exact present (mem_facts_congr (Canonical.beq_iff.2 equal) member)
    rw [grown, Set.encard_insert_of_notMem isNew, wellFormed.encard_eq,
      size_add_of_not_contains present, Nat.cast_add, Nat.cast_one]

/-- Adding facts keeps a store well-formed. -/
theorem WellFormed.addMany (wellFormed : store.WellFormed) (facts : List Fact) :
    (store.addMany facts).WellFormed := by
  induction facts generalizing store with
  | nil => exact wellFormed
  | cons fact facts inductionHypothesis => exact inductionHypothesis (wellFormed.add fact)

/-- The content of a well-formed store determines its size. -/
theorem WellFormed.size_eq (wellFormed : store.WellFormed) (otherWellFormed : later.WellFormed)
    (same : store.facts = later.facts) : store.size = later.size := by
  have counts := wellFormed.encard_eq
  rw [same, otherWellFormed.encard_eq] at counts
  exact_mod_cast counts.symm

/-- Adding facts makes a store no smaller. -/
theorem size_le_size_addMany (store : FactStore) (facts : List Fact) :
    store.size ≤ (store.addMany facts).size := by
  induction facts generalizing store with
  | nil => exact Nat.le_refl _
  | cons fact facts inductionHypothesis =>
      have step := size_add store fact
      have rest := inductionHypothesis (store.add fact).1
      rw [addMany_cons]
      omega

/-- A store that grows by nothing stays the same. -/
theorem addMany_eq_self {facts : List Fact}
    (same : (store.addMany facts).size = store.size) : store.addMany facts = store := by
  induction facts with
  | nil => rfl
  | cons fact facts inductionHypothesis =>
      rw [addMany_cons] at same ⊢
      by_cases present : store.contains fact = true
      · rw [add_of_contains present] at same ⊢
        exact inductionHypothesis same
      · have step := size_add_of_not_contains present
        have rest := size_le_size_addMany (store.add fact).1 facts
        omega

/-- The values of a map are those of its entries. -/
theorem values_eq_map_snd {β : Type} (map : Std.TreeMap String β) :
    map.values = map.toList.map Prod.snd := by
  have isFold : map.values = map.foldr (fun _ value values => value :: values) [] := rfl
  rw [isFold, Std.TreeMap.foldr_eq_foldr_toList]
  induction map.toList with
  | nil => rfl
  | cons entry entries inductionHypothesis => simp [inductionHypothesis]

/-- A store lists a fact if its relation does. -/
theorem mem_allFacts_iff {fact : Fact} :
    fact ∈ store.allFacts ↔ ∃ relation, fact ∈ store.factsOf relation := by
  simp only [allFacts, values_eq_map_snd, List.mem_flatMap, List.mem_map, Prod.exists,
    Std.TreeMap.mem_toList_iff_getElem?_eq_some, exists_eq_right, factsOf, setOf,
    Std.TreeMap.getD_eq_getD_getElem?]
  constructor
  · rintro ⟨set, ⟨relation, isSet⟩, listed⟩
    exact ⟨relation, by simpa [isSet, OrderedSet.toList] using listed⟩
  · rintro ⟨relation, listed⟩
    cases isSet : store.relations[relation]? with
    | none =>
        rw [isSet, Option.getD_none] at listed
        cases Array.mem_toList_iff.2 listed
    | some set =>
        rw [isSet, Option.getD_some] at listed
        exact ⟨set, ⟨relation, isSet⟩, Array.mem_toList_iff.2 listed⟩

/-- What a well-formed store lists is its content. -/
theorem WellFormed.exists_mem_allFacts_iff (wellFormed : store.WellFormed) {fact : Fact} :
    (∃ stored ∈ store.allFacts, (stored == fact) = true) ↔ fact ∈ store.facts := by
  simp only [mem_allFacts_iff]
  constructor
  · rintro ⟨stored, ⟨relation, isStored⟩, equal⟩
    have ofRelation := wellFormed.relation_eq relation stored isStored
    exact mem_facts_congr equal (mem_facts_of_mem_factsOf isStored ofRelation)
  · intro member
    obtain ⟨stored, isStored, equal⟩ := mem_facts_iff.1 member
    exact ⟨stored, ⟨_, isStored⟩, equal⟩

end FactStore

end Datalog
