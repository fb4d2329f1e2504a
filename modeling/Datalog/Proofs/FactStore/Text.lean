import Datalog.FactStore.Printer
import Datalog.Proofs.FactStore.History

/-!
# The text of a store

A store prints its facts in ascending order, so its text depends on which facts there are and
how they are written but not on the order in which they came. In particular a store to which
the facts are added in the order of the text prints as that text again
(`FactStore.text_addMany_sortedFacts`).
-/

namespace Datalog

/-- Any two facts are in order one way or the other. -/
theorem Fact.cmp_total (first second : Fact) :
    ((first.cmp second).isLE || (second.cmp first).isLE) = true := by
  have swapped : second.cmp first = (first.cmp second).swap := Std.OrientedCmp.eq_swap
  rw [swapped]
  cases first.cmp second <;> rfl

/-- Facts that do not repeat each other have one ascending order. -/
theorem Fact.sort_eq_of_perm {facts others : List Fact} (perm : facts.Perm others)
    (distinct : facts.Pairwise fun earlier later => earlier.cmp later ≠ .eq) :
    Fact.sort facts = Fact.sort others := by
  have sorted (list : List Fact) :
      (Fact.sort list).Pairwise fun earlier later => (earlier.cmp later).isLE = true :=
    List.pairwise_mergeSort (fun _ _ _ => Std.TransCmp.isLE_trans) Fact.cmp_total list
  have listed (list : List Fact) : (Fact.sort list).Perm list := List.mergeSort_perm _ _
  refine ((listed facts).trans (perm.trans (listed others).symm)).eq_of_pairwise ?_
    (sorted facts) (sorted others)
  intro first second isFirst isSecond isLess isGreater
  by_contra different
  have inFacts := (listed facts).mem_iff.1 isFirst
  have alsoInFacts := perm.mem_iff.2 ((listed others).mem_iff.1 isSecond)
  have isSymm : Std.Symm fun earlier later : Fact => earlier.cmp later ≠ .eq :=
    ⟨fun _ _ notEqual equal => notEqual (Std.OrientedCmp.eq_symm equal)⟩
  refine distinct.forall inFacts alsoInFacts different ?_
  exact Std.OrientedCmp.isLE_antisymm isLess isGreater

namespace FactStore

variable {store other : FactStore}

/-- The facts of a store in the order in which they are printed. -/
def sortedFacts (store : FactStore) : List Fact :=
  store.relationNames.flatMap store.sortedFactsOf

/-- The facts that are printed are those that are stored. -/
theorem perm_sortedFacts (store : FactStore) : store.sortedFacts.Perm store.allFacts := by
  rw [allFacts_eq_flatMap_relationNames]
  exact List.Perm.flatMap_left _ fun relation _ => List.mergeSort_perm _ _

/-- Lines of several lists of clauses are the lines of one list after the other. -/
theorem lines_flatMap {α : Type} (items : List α) (clauses : α → List String) :
    lines (items.flatMap clauses) = String.join (items.map fun item => lines (clauses item)) := by
  apply String.toList_injective
  simp only [lines, String.toList_join, List.flatMap_map, List.flatMap_assoc]

/-- The text of a store has one line for each fact. -/
theorem WellFormed.text_eq_lines (wellFormed : store.WellFormed) :
    store.text = lines (store.sortedFacts.map fun fact =>
      fact.textIn (store.shapeOf? fact.relation) ++ ".") := by
  rw [sortedFacts, List.map_flatMap, lines_flatMap, text]
  refine congrArg String.join (List.map_congr_left fun relation _ => ?_)
  refine congrArg lines (List.map_congr_left fun fact isSorted => ?_)
  have isListed : fact ∈ (store.factsOf relation).toList := List.mem_mergeSort.1 isSorted
  rw [wellFormed.relation_eq relation fact (Array.mem_toList_iff.1 isListed)]

/-- Stores with the same facts have the same relations. -/
theorem Occupied.relationNames_eq (occupied : store.Occupied) (otherOccupied : other.Occupied)
    (perm : ∀ relation,
      (store.factsOf relation).toList.Perm (other.factsOf relation).toList) :
    store.relationNames = other.relationNames := by
  have ascending (store : FactStore) : store.relationNames.Pairwise
      fun earlier later => compare earlier later = .lt := Std.TreeMap.ordered_keys
  have nodup (store : FactStore) : store.relationNames.Nodup :=
    (ascending store).imp fun isLess same => by simp [same] at isLess
  have sameNames : store.relationNames.Perm other.relationNames := by
    refine (List.perm_ext_iff_of_nodup (nodup store) (nodup other)).2 fun relation => ?_
    rw [occupied.mem_relationNames_iff, otherOccupied.mem_relationNames_iff]
    refine exists_congr fun fact => ?_
    rw [← Array.mem_toList_iff, ← Array.mem_toList_iff, (perm relation).mem_iff]
  refine sameNames.eq_of_pairwise ?_ (ascending store) (ascending other)
  intro first second _ _ isLess isGreater
  rw [Std.OrientedCmp.gt_iff_lt.2 isLess] at isGreater
  cases isGreater

/-- Stores with the same facts print alike if they know the same shapes of them. -/
theorem text_eq_of_perm (occupied : store.Occupied) (otherOccupied : other.Occupied)
    (perm : ∀ relation,
      (store.factsOf relation).toList.Perm (other.factsOf relation).toList)
    (sameShapes : ∀ relation ∈ other.relationNames,
      store.shapeOf? relation = other.shapeOf? relation) :
    store.text = other.text := by
  rw [text, text, occupied.relationNames_eq otherOccupied perm]
  refine congrArg String.join (List.map_congr_left fun relation member => ?_)
  have sameFacts : store.sortedFactsOf relation = other.sortedFactsOf relation :=
    Fact.sort_eq_of_perm (perm relation) (store.setOf relation).pairwise_toList
  rw [relationText, relationText, sameFacts, sameShapes relation member]

/-- The facts that are printed do not repeat each other. -/
theorem WellFormed.pairwise_sortedFacts (wellFormed : store.WellFormed) :
    store.sortedFacts.Pairwise fun earlier later => earlier.cmp later ≠ .eq :=
  store.perm_sortedFacts.symm.pairwise wellFormed.pairwise_allFacts
    fun notEqual equal => notEqual (Std.OrientedCmp.eq_symm equal)

/-- Facts that are added in the order in which they are printed are those of each relation. -/
theorem WellFormed.perm_factsOf_addMany (wellFormed : store.WellFormed)
    (shapes : Std.TreeMap String Shape) (relation : String) :
    (((withShapes shapes).addMany store.sortedFacts).factsOf relation).toList.Perm
      (store.factsOf relation).toList := by
  rw [toList_factsOf_addMany wellFormed.pairwise_sortedFacts, ← wellFormed.filter_allFacts]
  exact store.perm_sortedFacts.filter _

/-- Facts that are added in the order in which they are printed are as many as they were. -/
theorem WellFormed.size_addMany_sortedFacts (wellFormed : store.WellFormed)
    (shapes : Std.TreeMap String Shape) :
    ((withShapes shapes).addMany store.sortedFacts).size = store.size := by
  have sameContent : ((withShapes shapes).addMany store.sortedFacts).facts = store.facts := by
    ext fact
    rw [mem_facts_iff, mem_facts_iff]
    simp only [← Array.mem_toList_iff, (wellFormed.perm_factsOf_addMany _ _).mem_iff]
  exact ((wellFormed_withShapes shapes).addMany _).size_eq wellFormed sameContent

/-- Facts that are added in the order in which they are printed are printed so again. -/
theorem text_addMany_sortedFacts (wellFormed : store.WellFormed) (occupied : store.Occupied)
    {shapes : Std.TreeMap String Shape}
    (sameShapes : ∀ relation ∈ store.relationNames,
      shapes[relation]? = store.shapeOf? relation) :
    ((withShapes shapes).addMany store.sortedFacts).text = store.text := by
  refine text_eq_of_perm ((occupied_withShapes shapes).addMany _) occupied
    (wellFormed.perm_factsOf_addMany shapes) fun relation member => ?_
  rw [shapeOf?, shapes_addMany]
  exact sameShapes relation member

end FactStore

end Datalog
