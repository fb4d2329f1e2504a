import Datalog.Proofs.FactStore.Content
import Datalog.Proofs.FactStore.Text

/-!
# Canonical text

Facts that are not written in two ways leave one text, in whatever order and however often
they are added (`FactStore.canonicalText_of_sameFacts`). This text is a list of the facts,
each of them once: relations in ascending order of their names, and the facts of a relation in
strictly ascending order of their values.
-/

namespace Datalog

namespace Fact

/-- No two facts of a list are equal but written differently. -/
def Unambiguous (facts : List Fact) : Prop :=
  ∀ first ∈ facts, ∀ second ∈ facts, (first == second) = true → first = second

instance (facts : List Fact) : Decidable (Unambiguous facts) :=
  inferInstanceAs (Decidable (∀ first ∈ facts, ∀ second ∈ facts, _ → _))

/-- One fact is printed before another: its relation comes first, or of one relation its values
do. -/
def Precedes (earlier later : Fact) : Prop :=
  compare earlier.relation later.relation = .lt ∨
    earlier.relation = later.relation ∧
      List.compareLex Value.cmp earlier.values later.values = .lt

/-- The order of printing is the order of facts. -/
theorem precedes_iff {earlier later : Fact} :
    earlier.Precedes later ↔ earlier.cmp later = .lt := by
  simp [Precedes, cmp, compareLex, compareOn, Ordering.then_eq_lt]

/-- Facts in ascending order that do not repeat each other are in strictly ascending order. -/
theorem pairwise_precedes_sort {facts : List Fact}
    (distinct : facts.Pairwise fun earlier later => earlier.cmp later ≠ .eq) :
    (Fact.sort facts).Pairwise Precedes := by
  have ascending : (Fact.sort facts).Pairwise fun earlier later =>
      (earlier.cmp later).isLE = true :=
    List.pairwise_mergeSort (fun _ _ _ => Std.TransCmp.isLE_trans) cmp_total facts
  have stillDistinct : (Fact.sort facts).Pairwise fun earlier later =>
      earlier.cmp later ≠ .eq :=
    (List.mergeSort_perm facts _).symm.pairwise distinct
      fun notEqual equal => notEqual (Std.OrientedCmp.eq_symm equal)
  refine ascending.imp₂ ?_ stillDistinct
  intro earlier later isLess different
  rw [precedes_iff]
  cases order : earlier.cmp later with
  | lt => rfl
  | eq => exact absurd order different
  | gt => simp [order] at isLess

end Fact

namespace FactStore

variable {store : FactStore} {facts others : List Fact}

/-- A fact that is listed after adding facts is one of them, or was listed before. -/
theorem mem_of_mem_factsOf_addMany {relation : String} {fact : Fact}
    (listed : fact ∈ (store.addMany facts).factsOf relation) :
    fact ∈ store.factsOf relation ∨ fact ∈ facts := by
  induction facts generalizing store with
  | nil => exact .inl listed
  | cons first facts inductionHypothesis =>
      rcases @inductionHypothesis (store.add first).1 listed with old | new
      · rcases mem_factsOf_of_add old with older | ⟨rfl, _⟩
        · exact .inl older
        · exact .inr List.mem_cons_self
      · exact .inr (List.mem_cons_of_mem _ new)

/-- A store of facts that are not written in two ways lists just these. -/
theorem mem_factsOf_iff_of_unambiguous (unambiguous : Fact.Unambiguous facts)
    (shapes : Std.TreeMap String Shape) {relation : String} {fact : Fact} :
    fact ∈ ((withShapes shapes).addMany facts).factsOf relation ↔
      fact ∈ facts ∧ fact.relation = relation := by
  have wellFormed := (wellFormed_withShapes shapes).addMany facts
  have isAdded {relation : String} {fact : Fact}
      (listed : fact ∈ ((withShapes shapes).addMany facts).factsOf relation) : fact ∈ facts := by
    refine (mem_of_mem_factsOf_addMany listed).resolve_left fun impossible => ?_
    simp at impossible
  constructor
  · intro listed
    exact ⟨isAdded listed, wellFormed.relation_eq relation fact listed⟩
  · rintro ⟨added, rfl⟩
    obtain ⟨stored, listed, equal⟩ :=
      mem_facts_iff.1 (mem_facts_addMany.2 (.inr ⟨fact, added, BEq.rfl⟩))
    rwa [unambiguous stored (isAdded listed) fact added equal] at listed

/-- Stores of the same facts, none written in two ways, list the same facts of each relation. -/
theorem perm_factsOf_of_sameFacts (unambiguous : Fact.Unambiguous facts)
    (sameFacts : ∀ fact, fact ∈ others ↔ fact ∈ facts) (shapes : Std.TreeMap String Shape)
    (relation : String) :
    (((withShapes shapes).addMany facts).factsOf relation).toList.Perm
      (((withShapes shapes).addMany others).factsOf relation).toList := by
  have otherUnambiguous : Fact.Unambiguous others := fun first isFirst second isSecond =>
    unambiguous first ((sameFacts first).1 isFirst) second ((sameFacts second).1 isSecond)
  have nodup (store : FactStore) : (store.factsOf relation).toList.Nodup :=
    (nodup_factsOf store relation).of_map
  refine (List.perm_ext_iff_of_nodup (nodup _) (nodup _)).2 fun fact => ?_
  rw [Array.mem_toList_iff, Array.mem_toList_iff, mem_factsOf_iff_of_unambiguous unambiguous,
    mem_factsOf_iff_of_unambiguous otherUnambiguous, sameFacts]

/-- Facts are printed in strictly ascending order. -/
theorem WellFormed.pairwise_precedes_sortedFacts (wellFormed : store.WellFormed) :
    store.sortedFacts.Pairwise Fact.Precedes := by
  have ofRelation {relation : String} {fact : Fact}
      (isSorted : fact ∈ store.sortedFactsOf relation) : fact.relation = relation :=
    wellFormed.relation_eq relation fact (Array.mem_toList_iff.1 (List.mem_mergeSort.1 isSorted))
  have ascending : store.relationNames.Pairwise
      fun earlier later => compare earlier later = .lt := Std.TreeMap.ordered_keys
  refine List.pairwise_flatMap.2 ⟨fun relation _ => ?_, ascending.imp ?_⟩
  · exact Fact.pairwise_precedes_sort (store.setOf relation).pairwise_toList
  · intro earlier later isLess fact isEarlier other isLater
    left
    rwa [ofRelation isEarlier, ofRelation isLater]

/-- Of the facts that are printed those of one relation are printed for it. -/
theorem WellFormed.filter_sortedFacts (wellFormed : store.WellFormed) (relation : String) :
    store.sortedFacts.filter (·.relation = relation) = store.sortedFactsOf relation := by
  have listed := store.perm_sortedFacts.filter (·.relation = relation)
  rw [wellFormed.filter_allFacts] at listed
  refine (listed.trans (List.mergeSort_perm _ _).symm).eq_of_pairwise ?_
    (wellFormed.pairwise_precedes_sortedFacts.filter _)
    (Fact.pairwise_precedes_sort (store.setOf relation).pairwise_toList)
  intro first second _ _ isLess isGreater
  rw [Fact.precedes_iff] at isLess isGreater
  rw [Std.OrientedCmp.gt_iff_lt.2 isLess] at isGreater
  cases isGreater

/-- Two stores print alike, and what they print is a list of given facts without repetition and
in order. -/
structure CanonicalText (store other : FactStore) (facts : List Fact) : Prop where
  /-- The stores have the same text. -/
  text_eq : store.text = other.text
  /-- Each relation has the same text in both. -/
  relationText_eq : ∀ relation, store.relationText relation = other.relationText relation
  /-- The text has one line for each fact, in strictly ascending order, and that of a relation
  has the lines of its facts. -/
  exists_printed : ∃ printed : List Fact,
    (∀ fact, fact ∈ printed ↔ fact ∈ facts) ∧ printed.Nodup ∧ printed.Pairwise Fact.Precedes ∧
      store.text =
        lines (printed.map fun fact => fact.textIn (store.shapeOf? fact.relation) ++ ".") ∧
      ∀ relation, store.relationText relation = lines
        ((printed.filter (·.relation = relation)).map fun fact =>
          fact.textIn (store.shapeOf? relation) ++ ".")

/-- Facts of two relations, one of them named, with values of several kinds. -/
def shades : List Fact :=
  [⟨"tone", [.string "b", .int 2]⟩, ⟨"dot", [.null]⟩, ⟨"dot", [.int 3, .bool true]⟩,
    ⟨"dot", [.int 3]⟩, ⟨"dot", [.float ⟨0x4004000000000000⟩, .keyword "a"]⟩]

end FactStore

end Datalog
