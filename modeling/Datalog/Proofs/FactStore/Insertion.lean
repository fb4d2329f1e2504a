import Datalog.Proofs.FactStore.Growth

/-!
# The order of insertion

Elements that do not repeat each other are appended to a set as far as they are new
(`OrderedSet.toList_insertMany`), and a store files facts under their relations in the order
in which they come. So a store is determined up to its index by what its relations list
(`FactStore.beq_of_factsOf_eq`), and its facts, given back relation by relation, are filed
as they were.
-/

namespace Datalog

namespace OrderedSet

variable {α : Type} {cmp : α → α → Ordering}

/-- The empty set contains nothing. -/
theorem contains_empty (element : α) : (∅ : OrderedSet α cmp).contains element = false := by
  refine Bool.eq_false_iff.2 fun present => ?_
  obtain ⟨item, listed, _⟩ := contains_iff.1 present
  cases listed

/-- A set lists no element twice. -/
theorem pairwise_toList (set : OrderedSet α cmp) :
    set.toList.Pairwise fun earlier later => cmp earlier later ≠ .eq :=
  set.distinct

variable [Std.TransCmp cmp]

/-- Elements that do not repeat each other are appended as far as they are new. -/
theorem toList_insertMany (set : OrderedSet α cmp) {elements : List α}
    (distinct : elements.Pairwise fun earlier later => cmp earlier later ≠ .eq) :
    (set.insertMany elements).toList =
      set.toList ++ elements.filter fun element => !set.contains element := by
  induction elements generalizing set with
  | nil => simp [insertMany]
  | cons element elements inductionHypothesis =>
      obtain ⟨different, distinct⟩ := List.pairwise_cons.1 distinct
      have sameFilter : (elements.filter fun other => !(set.insert element).contains other) =
          elements.filter fun other => !set.contains other := by
        refine List.filter_congr fun other member => ?_
        rw [contains_insert, beq_eq_false_iff_ne.2 (different other member), Bool.or_false]
      change ((set.insert element).insertMany elements).toList = _
      rw [inductionHypothesis _ distinct, sameFilter, toList_insert]
      cases present : set.contains element <;> simp [present]

/-- Insertions remove nothing. -/
theorem toList_subset_insertMany (set : OrderedSet α cmp) (elements : List α) :
    set.toList ⊆ (set.insertMany elements).toList := by
  induction elements generalizing set with
  | nil => exact List.Subset.refl _
  | cons element elements inductionHypothesis =>
      refine List.Subset.trans ?_ (inductionHypothesis (set.insert element))
      rw [toList_insert]
      split
      next => exact List.Subset.refl _
      next => exact List.subset_append_left _ _

/-- Elements can be inserted in two portions. -/
theorem insertMany_append (set : OrderedSet α cmp) (elements more : List α) :
    set.insertMany (elements ++ more) = (set.insertMany elements).insertMany more :=
  List.foldl_append

/-- After insertions a set contains the new elements and what it contained before. -/
theorem contains_insertMany {set : OrderedSet α cmp} {elements : List α} {element : α} :
    (set.insertMany elements).contains element = true ↔
      set.contains element = true ∨ ∃ added ∈ elements, cmp added element = .eq := by
  induction elements generalizing set with
  | nil => simp [insertMany]
  | cons first elements inductionHypothesis =>
      change ((set.insert first).insertMany elements).contains element = true ↔ _
      rw [inductionHypothesis, contains_insert, Bool.or_eq_true, beq_iff_eq, or_assoc,
        List.exists_mem_cons_iff]

/-- A set of elements that do not repeat each other lists them. -/
theorem toList_insertMany_empty {elements : List α}
    (distinct : elements.Pairwise fun earlier later => cmp earlier later ≠ .eq) :
    ((∅ : OrderedSet α cmp).insertMany elements).toList = elements := by
  have allNew : (elements.filter fun element => !(∅ : OrderedSet α cmp).contains element) =
      elements := List.filter_eq_self.2 fun element _ => by rw [contains_empty]; rfl
  rw [toList_insertMany _ distinct, allNew]
  exact List.nil_append elements

/-- The elements of a set that was made from a list make the same set again. -/
theorem ofList_toList_ofList (elements : List α) :
    (ofList (ofList elements : OrderedSet α cmp).toList : OrderedSet α cmp) = ofList elements := by
  -- The last element is either present already, or listed last.
  induction elements using List.reverseRecOn with
  | nil => rfl
  | append_singleton elements element inductionHypothesis =>
      have isLast : (ofList (elements ++ [element]) : OrderedSet α cmp) =
          (ofList elements : OrderedSet α cmp).insert element := insertMany_append _ _ _
      rw [isLast, toList_insert]
      split
      next present => rw [inductionHypothesis, insert_of_contains present]
      next =>
        refine (insertMany_append _ _ _).trans ?_
        exact congrArg (·.insert element) inductionHypothesis

end OrderedSet

/-- A set of facts lists those that were inserted, up to equality. -/
theorem Fact.mem_map_canonical_ofList {facts : List Fact} {image : Fact} :
    image ∈ (OrderedSet.ofList facts : OrderedSet Fact Fact.cmp).toList.map canonical ↔
      image ∈ facts.map canonical := by
  have exists_iff (fact : Fact) :
      (∃ listed ∈ (OrderedSet.ofList facts : OrderedSet Fact Fact.cmp).toList,
        listed.cmp fact = .eq) ↔ ∃ inserted ∈ facts, inserted.cmp fact = .eq := by
    rw [← OrderedSet.contains_iff]
    refine OrderedSet.contains_insertMany.trans (or_iff_right ?_)
    exact Bool.eq_false_iff.1 (OrderedSet.contains_empty fact)
  simp only [← Fact.beq_iff_cmp_eq, Canonical.beq_iff] at exists_iff
  rw [List.mem_map, List.mem_map]
  constructor
  · rintro ⟨fact, listed, rfl⟩
    exact (exists_iff fact).1 ⟨fact, listed, rfl⟩
  · rintro ⟨fact, inserted, rfl⟩
    exact (exists_iff fact).2 ⟨fact, inserted, rfl⟩

namespace FactStore

variable {store left right : FactStore}

/-- A relation takes its own facts, in the order in which they are added. -/
theorem setOf_addMany_eq_insertMany (store : FactStore) (facts : List Fact) (relation : String) :
    (store.addMany facts).setOf relation =
      (store.setOf relation).insertMany (facts.filter (·.relation = relation)) := by
  induction facts generalizing store with
  | nil => rfl
  | cons fact facts inductionHypothesis =>
      rw [addMany_cons, inductionHypothesis, setOf_add]
      by_cases own : fact.relation = relation <;> simp [own, OrderedSet.insertMany]

/-- A store of facts that do not repeat each other lists those of a relation in their order. -/
theorem toList_factsOf_addMany {shapes : Std.TreeMap String Shape} {facts : List Fact}
    (distinct : facts.Pairwise fun earlier later => earlier.cmp later ≠ .eq)
    (relation : String) :
    (((withShapes shapes).addMany facts).factsOf relation).toList =
      facts.filter (·.relation = relation) := by
  change (((withShapes shapes).addMany facts).setOf relation).toList = _
  have empty : (withShapes shapes).setOf relation = ∅ := Std.TreeMap.getD_emptyc
  rw [setOf_addMany_eq_insertMany, empty]
  exact OrderedSet.toList_insertMany_empty (distinct.sublist List.filter_sublist)

/-- Adding facts in two portions adds them all. -/
theorem addMany_append (store : FactStore) (facts more : List Fact) :
    store.addMany (facts ++ more) = (store.addMany facts).addMany more :=
  List.foldl_append

/-- Adding facts does not touch the shapes. -/
theorem shapes_addMany (store : FactStore) (facts : List Fact) :
    (store.addMany facts).shapes = store.shapes := by
  induction facts generalizing store with
  | nil => rfl
  | cons fact facts inductionHypothesis =>
      rw [addMany_cons, inductionHypothesis, add]
      split <;> rfl

/-- Every relation that a store has lists a fact. -/
def Occupied (store : FactStore) : Prop :=
  ∀ (relation : String) (set : OrderedSet Fact Fact.cmp),
    store.relations[relation]? = some set → set.items ≠ #[]

/-- Adding a fact makes no empty relation. -/
theorem Occupied.add (occupied : store.Occupied) (fact : Fact) :
    (store.add fact).1.Occupied := by
  intro relation set isSet
  rw [FactStore.add] at isSet
  split at isSet
  next => exact occupied relation set isSet
  next absent =>
    rw [Std.TreeMap.getElem?_alter] at isSet
    split at isSet
    next =>
      obtain rfl := Option.some.inj isSet
      rw [← Array.toList_eq_nil_iff.ne]
      change (OrderedSet.insert _ fact).toList ≠ []
      rw [OrderedSet.toList_insert]
      split
      next present =>
        obtain ⟨item, listed, _⟩ := OrderedSet.contains_iff.1 present
        exact List.ne_nil_of_mem listed
      next => exact List.append_ne_nil_of_right_ne_nil _ (List.cons_ne_nil _ _)
    next => exact occupied relation set isSet

/-- Adding facts makes no empty relation. -/
theorem Occupied.addMany (occupied : store.Occupied) (facts : List Fact) :
    (store.addMany facts).Occupied := by
  induction facts generalizing store with
  | nil => exact occupied
  | cons fact facts inductionHypothesis => exact inductionHypothesis (occupied.add fact)

/-- A store without facts has no relation at all. -/
theorem occupied_withShapes (shapes : Std.TreeMap String Shape) :
    (withShapes shapes).Occupied := by
  intro relation set isSet
  rw [withShapes, Std.TreeMap.getElem?_emptyc] at isSet
  cases isSet

/-- The relations of a store, each with the facts that it lists. -/
def listing (store : FactStore) : Std.TreeMap String (Array Fact) :=
  store.relations.map fun _ set => set.items

/-- A relation is in the listing if it lists a fact. -/
theorem Occupied.getElem?_listing (occupied : store.Occupied) (relation : String) :
    store.listing[relation]? =
      if store.factsOf relation = #[] then none else some (store.factsOf relation) := by
  rw [listing, Std.TreeMap.getElem?_map, factsOf, setOf, Std.TreeMap.getD_eq_getD_getElem?]
  cases isSet : store.relations[relation]? with
  | none => rfl
  | some set => simp [occupied relation set isSet]

/-- Sets with the same listing are equal. -/
theorem beq_toList_of_listing_eq (same : left.listing.toList = right.listing.toList) :
    (left.relations.toList == right.relations.toList) = true := by
  rw [listing, listing, Std.TreeMap.toList_map, Std.TreeMap.toList_map] at same
  generalize left.relations.toList = entries, right.relations.toList = others at same
  induction entries generalizing others with
  | nil =>
      cases others with
      | nil => rfl
      | cons => cases same
  | cons entry entries inductionHypothesis =>
      cases others with
      | nil => cases same
      | cons other others =>
          obtain ⟨sameEntry, sameRest⟩ := List.cons.inj same
          obtain ⟨sameName, sameItems⟩ := Prod.mk.inj sameEntry
          rw [List.cons_beq_cons, Bool.and_eq_true]
          refine ⟨?_, inductionHypothesis others sameRest⟩
          change (entry.1 == other.1 && entry.2.items.toList == other.2.items.toList) = true
          rw [sameName, sameItems, BEq.rfl, BEq.rfl, Bool.and_self]

/-- Stores are equal if they know the same shapes and list the same facts of each relation. -/
theorem beq_of_factsOf_eq (occupied : left.Occupied) (otherOccupied : right.Occupied)
    (sameFacts : ∀ relation, left.factsOf relation = right.factsOf relation)
    (sameShapes : left.shapes.toList = right.shapes.toList) (sameSize : left.size = right.size) :
    (left == right) = true := by
  have sameListing : left.listing.toList = right.listing.toList := by
    refine Std.TreeMap.equiv_iff_toList_eq.1 (.of_forall_constGet?_eq fun relation => ?_)
    rw [occupied.getElem?_listing, otherOccupied.getElem?_listing, sameFacts]
  change (left.relations.toList == right.relations.toList &&
    left.shapes.toList == right.shapes.toList && left.size == right.size) = true
  rw [beq_toList_of_listing_eq sameListing, sameShapes, sameSize, BEq.rfl, BEq.rfl]
  rfl

/-- The facts of a store are those of its relations, one after the other. -/
theorem allFacts_eq (store : FactStore) :
    store.allFacts = store.relations.toList.flatMap fun entry => entry.2.toList := by
  rw [allFacts, values_eq_map_snd, List.flatMap_map]

/-- A relation of a well-formed store has facts of its own. -/
theorem WellFormed.relation_eq_of_mem (wellFormed : store.WellFormed)
    {entry : String × OrderedSet Fact Fact.cmp} (member : entry ∈ store.relations.toList)
    {fact : Fact} (listed : fact ∈ entry.2.toList) : fact.relation = entry.1 := by
  refine wellFormed.relation_eq entry.1 fact (Array.mem_toList_iff.1 ?_)
  rw [factsOf, setOf, Std.TreeMap.getD_eq_getD_getElem?,
    Std.TreeMap.mem_toList_iff_getElem?_eq_some.1 member]
  exact listed

/-- The facts of a store, given back relation by relation, do not repeat each other. -/
theorem WellFormed.pairwise_allFacts (wellFormed : store.WellFormed) :
    store.allFacts.Pairwise fun earlier later => earlier.cmp later ≠ .eq := by
  rw [allFacts_eq, List.pairwise_flatMap]
  refine ⟨fun entry _ => entry.2.distinct, ?_⟩
  refine store.relations.distinct_keys_toList.imp_of_mem ?_
  intro entry other member otherMember different fact listed otherFact otherListed equal
  refine different (Std.LawfulEqCmp.compare_eq_iff_eq.2 ?_)
  rw [← wellFormed.relation_eq_of_mem member listed,
    ← wellFormed.relation_eq_of_mem otherMember otherListed]
  exact Fact.relation_congr (Fact.beq_iff_cmp_eq.2 equal)

/-- The size of a well-formed store counts the facts that it lists. -/
theorem WellFormed.length_allFacts (wellFormed : store.WellFormed) :
    store.allFacts.length = store.size := by
  have nodup : (store.allFacts.map canonical).Nodup := by
    refine List.pairwise_map.2 (wellFormed.pairwise_allFacts.imp fun different same => ?_)
    exact different (Fact.beq_iff_cmp_eq.1 (Canonical.beq_iff.2 same))
  have listed : canonical '' store.facts = (store.allFacts.map canonical).toFinset := by
    ext image
    rw [List.coe_toFinset, Set.mem_image]
    constructor
    · rintro ⟨fact, member, rfl⟩
      obtain ⟨stored, isListed, equal⟩ := wellFormed.exists_mem_allFacts_iff.2 member
      exact List.mem_map.2 ⟨stored, isListed, Canonical.beq_iff.1 equal⟩
    · intro isImage
      obtain ⟨stored, isListed, rfl⟩ := List.mem_map.1 isImage
      exact ⟨stored, wellFormed.exists_mem_allFacts_iff.1 ⟨stored, isListed, BEq.rfl⟩, rfl⟩
  have counted := wellFormed.encard_eq
  rw [listed, Set.encard_coe_eq_coe_finsetCard, List.toFinset_card_of_nodup nodup,
    List.length_map] at counted
  exact_mod_cast counted

/-- Of entries under different names, those under one name are the one that has it. -/
theorem flatMap_of_mem {β γ : Type} {entries : List (String × β)}
    (distinct : entries.Pairwise fun earlier later => ¬ compare earlier.1 later.1 = .eq)
    {name : String} {value : β} (member : (name, value) ∈ entries) (items : β → List γ) :
    (entries.flatMap fun entry => if entry.1 = name then items entry.2 else []) =
      items value := by
  induction entries with
  | nil => cases member
  | cons entry entries inductionHypothesis =>
      obtain ⟨different, distinct⟩ := List.pairwise_cons.1 distinct
      rw [List.flatMap_cons]
      rcases List.mem_cons.1 member with rfl | inRest
      · have noOther : (entries.flatMap fun entry =>
            if entry.1 = name then items entry.2 else []) = [] :=
          List.flatMap_eq_nil_iff.2 fun other inRest => if_neg fun same =>
            different other inRest (Std.LawfulEqCmp.compare_eq_iff_eq.2 same.symm)
        rw [noOther, if_pos rfl, List.append_nil]
      · have notHere : entry.1 ≠ name := fun same =>
          different _ inRest (Std.LawfulEqCmp.compare_eq_iff_eq.2 same)
        rw [if_neg notHere, List.nil_append, inductionHypothesis distinct inRest]

/-- Of the facts of a store those of one relation come in the order of that relation. -/
theorem WellFormed.filter_allFacts (wellFormed : store.WellFormed) (relation : String) :
    store.allFacts.filter (·.relation = relation) = (store.factsOf relation).toList := by
  have ofEntry : ∀ entry ∈ store.relations.toList,
      entry.2.toList.filter (·.relation = relation) =
        if entry.1 = relation then entry.2.toList else [] := by
    intro entry member
    split
    next same =>
      refine List.filter_eq_self.2 fun fact listed => ?_
      simp [wellFormed.relation_eq_of_mem member listed, same]
    next different =>
      refine List.filter_eq_nil_iff.2 fun fact listed => ?_
      simp [wellFormed.relation_eq_of_mem member listed, different]
  rw [allFacts_eq, List.filter_flatMap, List.flatMap_congr ofEntry, factsOf, setOf,
    Std.TreeMap.getD_eq_getD_getElem?]
  cases isSet : store.relations[relation]? with
  | none =>
      refine List.flatMap_eq_nil_iff.2 fun entry member => if_neg fun same => ?_
      rw [← same, Std.TreeMap.mem_toList_iff_getElem?_eq_some.1 member] at isSet
      cases isSet
  | some set =>
      exact flatMap_of_mem store.relations.distinct_keys_toList
        (Std.TreeMap.mem_toList_iff_getElem?_eq_some.2 isSet) OrderedSet.toList

end FactStore

end Datalog
