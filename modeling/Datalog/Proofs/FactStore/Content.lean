import Datalog.Proofs.FactStore.Growth

/-!
# The content of a store

A well-formed store lists each fact of its content once, so stores with the same content list
the same facts of each relation in some order and under some representation
(`FactStore.WellFormed.perm_factsOf`).
-/

namespace Datalog

/-- A set of facts lists none twice, under whatever representation. -/
theorem Fact.nodup_map_canonical (set : OrderedSet Fact Fact.cmp) :
    (set.toList.map canonical).Nodup := by
  refine List.pairwise_map.2 (set.distinct.imp fun different same => ?_)
  exact different (Fact.beq_iff_cmp_eq.1 (Canonical.beq_iff.2 same))

namespace FactStore

variable {store other : FactStore}

/-- Two stores list equal facts, and equally many of each relation. -/
structure SameContent (store other : FactStore) : Prop where
  mem_iff : ∀ fact : Fact, (∃ stored ∈ store.allFacts, (stored == fact) = true) ↔
    ∃ stored ∈ other.allFacts, (stored == fact) = true
  countOf_eq : ∀ relation, store.countOf relation = other.countOf relation

/-- A relation lists no fact twice, under whatever representation. -/
theorem nodup_factsOf (store : FactStore) (relation : String) :
    ((store.factsOf relation).toList.map canonical).Nodup :=
  Fact.nodup_map_canonical (store.setOf relation)

/-- A relation lists the facts of the content that are its own. -/
theorem WellFormed.mem_factsOf_iff (wellFormed : store.WellFormed) {relation : String}
    {image : Fact} :
    image ∈ (store.factsOf relation).toList.map canonical ↔
      ∃ fact ∈ store.facts, fact.relation = relation ∧ canonical fact = image := by
  simp only [List.mem_map, Array.mem_toList_iff]
  constructor
  · rintro ⟨fact, isStored, rfl⟩
    have ofRelation := wellFormed.relation_eq relation fact isStored
    exact ⟨fact, mem_facts_of_mem_factsOf isStored ofRelation, ofRelation, rfl⟩
  · rintro ⟨fact, member, rfl, rfl⟩
    obtain ⟨stored, isStored, equal⟩ := mem_facts_iff.1 member
    exact ⟨stored, isStored, Canonical.beq_iff.1 equal⟩

/-- Stores with the same facts of a relation list them in rearrangements of each other. -/
theorem WellFormed.perm_factsOf (wellFormed : store.WellFormed)
    (otherWellFormed : other.WellFormed) {relation : String}
    (same : ∀ fact : Fact, fact.relation = relation →
      (fact ∈ store.facts ↔ fact ∈ other.facts)) :
    ((store.factsOf relation).toList.map canonical).Perm
      ((other.factsOf relation).toList.map canonical) := by
  refine (List.perm_ext_iff_of_nodup (nodup_factsOf store relation)
    (nodup_factsOf other relation)).2 fun image => ?_
  rw [wellFormed.mem_factsOf_iff, otherWellFormed.mem_factsOf_iff]
  apply exists_congr
  intro fact
  rw [and_left_comm, and_left_comm (a := fact ∈ other.facts)]
  exact and_congr_right fun ofRelation => and_congr_left' (same fact ofRelation)

/-- Well-formed stores with the same facts list them equally often. -/
theorem WellFormed.sameContent (wellFormed : store.WellFormed)
    (otherWellFormed : other.WellFormed) (same : store.facts = other.facts) :
    store.SameContent other where
  mem_iff fact := by
    rw [wellFormed.exists_mem_allFacts_iff, otherWellFormed.exists_mem_allFacts_iff, same]
  countOf_eq relation := by
    have perm : ((store.factsOf relation).toList.map canonical).Perm
        ((other.factsOf relation).toList.map canonical) :=
      wellFormed.perm_factsOf otherWellFormed fun fact _ => by rw [same]
    simpa [countOf] using perm.length_eq

end FactStore

end Datalog
