import Datalog.Proofs.Evaluation.Idempotence

/-!
# Evaluation without negation is monotone

The model of a rule set is closed under its rules taken all at once, and rules without negated
atoms do not ask what lies below them. So whatever a rule set without negation finds is also
found where its facts and rules stand among others (`RuleSet.evaluate_mono`). The two runs
need not be compared: their strata and passes have nothing to do with each other.
-/

namespace Datalog

/-- Every fact of a store is contained in another. -/
def FactStore.IsPartOf (store other : FactStore) : Prop :=
  ∀ fact ∈ store.allFacts, other.contains fact = true

/-- What rules without negated atoms derive does not depend on what lies below them. -/
theorem consequences_subset_of_positive {rules : List Rule}
    (positive : ∀ rule ∈ rules, rule.negative = []) (lower other known : Set Fact) :
    consequences rules lower known ⊆ consequences rules other known := by
  refine consequences_congr fun rule member atom inBody => ?_
  rw [positive rule member] at inBody
  cases inBody

/-- The model is closed under all rules without negated atoms that equal one of its own. -/
theorem Stratifies.consequences_subset_of_covers {ruleSet : RuleSet}
    {stratification : Stratification}
    (stratifies : Stratifies ruleSet.rules.toList stratification) {rules : List Rule}
    (positive : ∀ rule ∈ rules, rule.negative = []) (covers : Covers rules ruleSet.rules.toList)
    (lower : Set Fact) :
    consequences rules lower (ruleSet.stratifiedModel stratification.strata) ⊆
      ruleSet.stratifiedModel stratification.strata := by
  intro fact derived
  obtain ⟨rule, member, valuation, applies, isHead⟩ :=
    consequences_subset_of_positive positive lower (ruleSet.stratifiedModel _) _ derived
  obtain ⟨other, inSet, equal⟩ := covers rule member
  obtain ⟨place, stratum, atPlace, inStratum⟩ := stratifies.exists_mem_rulesOf inSet
  have coversRule : Covers [rule] (ruleSet.rulesOf stratum) := by
    intro only isOnly
    rw [List.mem_singleton.1 isOnly]
    exact ⟨other, inStratum, equal⟩
  refine stratifies.consequences_model_subset (List.mem_of_getElem? atPlace)
    (coversRule.consequences ?_ ?_
      ⟨rule, List.mem_singleton_self rule, valuation, applies, isHead⟩)
  · exact fun found known _ => known
  · exact fun found known _ => known

namespace RuleSet

variable {ruleSet other : RuleSet} {limits otherLimits : Limits}
  {store otherStore : FactStore}

/-- No rule has a negated atom. -/
def Positive (ruleSet : RuleSet) : Prop :=
  ∀ rule ∈ ruleSet.rules.toList, rule.negative = []

/-- What a rule set without negation finds is found by every rule set that states or finds
its facts and has its rules. -/
theorem isPartOf_of_covers (positive : ruleSet.Positive)
    (isOk : ruleSet.evaluate limits = .ok store)
    (isOtherOk : other.evaluate otherLimits = .ok otherStore)
    (found : ∀ fact ∈ ruleSet.facts.toList, otherStore.contains fact = true)
    (covers : Covers ruleSet.rules.toList other.rules.toList) : store.IsPartOf otherStore := by
  obtain ⟨stratification, accepted, wellFormed, isModel⟩ := exists_facts_eq_of_evaluate isOk
  obtain ⟨otherStratification, otherAccepted, otherWellFormed, isOtherModel⟩ :=
    exists_facts_eq_of_evaluate isOtherOk
  -- What the other rule set finds is closed under the rules of this one, and has its facts.
  have included : ruleSet.stratifiedModel stratification.strata ⊆ otherStore.facts := by
    refine stratifiedModel_subset ?_ ?_ ?_ _
    · rintro fact ⟨stated, member, equal⟩
      exact FactStore.mem_facts_congr equal (found stated member)
    · exact fun fact member second equal => FactStore.mem_facts_congr equal member
    · intro stratum lower
      rw [isOtherModel]
      exact (stratifies_of_ok otherAccepted).consequences_subset_of_covers
        (fun rule member => positive rule (mem_of_mem_rulesOf member))
        (fun rule member => covers rule (mem_of_mem_rulesOf member)) lower
  intro fact member
  rw [← isModel] at included
  exact included (wellFormed.exists_mem_allFacts_iff.1 ⟨fact, member, BEq.rfl⟩)

/-- The stated facts of a rule set are in the store. -/
theorem contains_of_mem_facts (isOk : ruleSet.evaluate limits = .ok store) {fact : Fact}
    (member : fact ∈ ruleSet.facts.toList) : store.contains fact = true := by
  obtain ⟨stratification, _, _, isModel⟩ := exists_facts_eq_of_evaluate isOk
  have inModel : fact ∈ ruleSet.stratifiedModel stratification.strata :=
    stratifiedModel_before_subset List.nil_prefix ⟨fact, member, BEq.rfl⟩
  rw [← isModel] at inModel
  exact inModel

/-- Evaluation without negation is monotone: what a rule set finds is contained in the store
of every rule set that has its rules, be there more with negation, and states or finds its
facts, under whatever limits. In particular more facts take nothing away. -/
theorem evaluate_mono (positive : ruleSet.Positive)
    (isOk : ruleSet.evaluate limits = .ok store) :
    (∀ (other : RuleSet) (otherLimits : Limits) (otherStore : FactStore),
      other.evaluate otherLimits = .ok otherStore →
      (∀ fact ∈ ruleSet.facts.toList, ∃ equal ∈ other.facts.toList ++ otherStore.allFacts,
        (fact == equal) = true) →
      Covers ruleSet.rules.toList other.rules.toList → store.IsPartOf otherStore) ∧
    ∀ (facts : List Fact) (otherLimits : Limits) (otherStore : FactStore),
      (ruleSet.withFacts facts).evaluate otherLimits = .ok otherStore →
        store.IsPartOf otherStore := by
  constructor
  · intro other otherLimits otherStore isOtherOk statedOrFound covers
    refine isPartOf_of_covers positive isOk isOtherOk (fun fact member => ?_) covers
    obtain ⟨partner, isPartner, equal⟩ := statedOrFound fact member
    refine FactStore.mem_facts_congr (BEq.symm equal) ?_
    rcases List.mem_append.1 isPartner with isStated | isFound
    · exact contains_of_mem_facts isOtherOk isStated
    · obtain ⟨_, _, otherWellFormed, _⟩ := exists_facts_eq_of_evaluate isOtherOk
      exact otherWellFormed.exists_mem_allFacts_iff.1 ⟨partner, isFound, BEq.rfl⟩
  · intro facts otherLimits otherStore isOtherOk
    refine isPartOf_of_covers positive isOk isOtherOk (fun fact member => ?_) ?_
    · refine contains_of_mem_facts isOtherOk ?_
      rw [facts_withFacts]
      exact OrderedSet.toList_subset_insertMany _ _ member
    · rw [rules_withFacts]
      exact Covers.refl _

/-- The paths of a graph. -/
def paths : RuleSet :=
  let facts : List Fact := [⟨"edge", [.int 1, .int 2]⟩, ⟨"edge", [.int 2, .int 3]⟩]
  let edge (source target : String) : Atom := ⟨"edge", .ordered [.var source, .var target]⟩
  let rules : List Rule := [
    ⟨⟨"path", .ordered [.var "X", .var "Y"]⟩, [edge "X" "Y"], [], []⟩,
    ⟨⟨"path", .ordered [.var "X", .var "Z"]⟩,
      [⟨"path", .ordered [.var "X", .var "Y"]⟩, edge "Y" "Z"], [], []⟩]
  rules.foldl (fun set rule => (set.addRule rule).1) (RuleSet.empty.withFacts facts)

/-- The same paths and others, in a graph with an edge that is derived. -/
def linkedPaths : RuleSet :=
  let facts : List Fact := [⟨"link", [.float ⟨0x4008000000000000⟩, .int 2]⟩,
    ⟨"edge", [.int 1, .int 2]⟩, ⟨"edge", [.int 3, .int 1]⟩]
  let edge (source target : String) : Atom := ⟨"edge", .ordered [.var source, .var target]⟩
  let rules : List Rule := [
    ⟨⟨"path", .ordered [.var "X", .var "Z"]⟩,
      [edge "Y" "Z", ⟨"path", .ordered [.var "X", .var "Y"]⟩], [], []⟩,
    ⟨⟨"edge", .ordered [.var "Y", .var "X"]⟩,
      [⟨"link", .ordered [.var "X", .var "Y"]⟩], [], []⟩,
    ⟨⟨"path", .ordered [.var "X", .var "Y"]⟩, [edge "X" "Y"], [], []⟩]
  rules.foldl (fun set rule => (set.addRule rule).1) (RuleSet.empty.withFacts facts)

/-- The paths of a graph stay when one of its edges is derived and when it gets more. -/
theorem isPartOf_linkedPaths :
    paths.Positive ∧ linkedPaths.Positive ∧ ∃ store otherStore extended,
      paths.evaluate .standard = .ok store ∧ linkedPaths.evaluate ⟨15, 5⟩ = .ok otherStore ∧
      (paths.withFacts [⟨"edge", [.int 3, .int 1]⟩]).evaluate .standard = .ok extended ∧
      store.IsPartOf otherStore ∧ store.IsPartOf extended := by
  have positive : paths.Positive := by unfold Positive; decide +kernel
  have otherPositive : linkedPaths.Positive := by unfold Positive; decide +kernel
  have succeeds : (paths.evaluate .standard).isOk = true := by decide +kernel
  have otherSucceeds : (linkedPaths.evaluate ⟨15, 5⟩).isOk = true := by decide +kernel
  have extendedSucceeds : ((paths.withFacts [⟨"edge", [.int 3, .int 1]⟩]).evaluate
      .standard).isOk = true := by decide +kernel
  have found : (linkedPaths.evaluate ⟨15, 5⟩).toOption.all (fun otherStore =>
      paths.facts.toList.all fun fact =>
        (linkedPaths.facts.toList ++ otherStore.allFacts).any (fact == ·)) = true := by
    decide +kernel
  obtain ⟨store, isOk⟩ := exists_eq_ok_of_isOk succeeds
  obtain ⟨otherStore, isOtherOk⟩ := exists_eq_ok_of_isOk otherSucceeds
  obtain ⟨extended, isExtended⟩ := exists_eq_ok_of_isOk extendedSucceeds
  rw [isOtherOk, Except.toOption, Option.all_some] at found
  have statedOrFound : ∀ fact ∈ paths.facts.toList,
      ∃ equal ∈ linkedPaths.facts.toList ++ otherStore.allFacts, (fact == equal) = true := by
    intro fact member
    exact List.any_eq_true.1 (List.all_eq_true.1 found fact member)
  have covers : Covers paths.rules.toList linkedPaths.rules.toList := by
    unfold Covers
    decide +kernel
  obtain ⟨ofOther, ofExtended⟩ := evaluate_mono positive isOk
  exact ⟨positive, otherPositive, store, otherStore, extended, isOk, isOtherOk, isExtended,
    ofOther _ _ _ isOtherOk statedOrFound covers, ofExtended _ _ _ isExtended⟩

end RuleSet

end Datalog
